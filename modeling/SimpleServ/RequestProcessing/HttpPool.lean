import SimpleServ.Http.Extension
import SimpleServ.RequestProcessing.PoolOrder

/-
  The pool of a `TCPServer` with the `HTTPHandler` (tcp_server.hpp).

  The world is the file manager and the sockets. `answerTo` is what the handler makes of a text,
  and `exchange` what one connection leaves on its socket: the answer to its own request, if
  the parser accepts it, and the closing.

  `Threadpool.Serial.sockets`: when the pool has drained, each socket has seen the connections
  added on its descriptor in the order they came, each with its own exchange.
-/

namespace SimpleServ.RequestProcessing

open SimpleServ.Cxx SimpleServ.Http SimpleServ.Lib SimpleServ.Server SimpleServ.Utility
  SimpleServ.Utility.SharedQueue Outcome

/-! ## One worker's connections, socket by socket -/

/-- What the handler makes of a text, whatever it has in its cache. -/
def answerTo (disk : Disk) (table : FileTable) (str : Bytes) : Outcome (Option Bytes) := do
  match ← parseHttpRequest str with
  | .ok request => some <$> answer disk table request
  | .error _ => return none

/-- Where nothing is listed, nothing is found. -/
theorem answerTo_empty (disk : Disk) (str : Bytes) : answerTo disk ∅ str = (do
    match ← parseHttpRequest str with
    | .ok _ => return some notFoundMessage
    | .error _ => return none) := rfl

/-- What a connection leaves on its socket, where the worker goes on. -/
def exchange (disk : Disk) (table : FileTable) (socket : ClientSocket)
    (conn_obj : HTTPConnectionObject) : ClientSocket :=
  match answerTo disk table conn_obj.request with
  | ret (some response) => (socket.send response).close
  | _ => socket.close

variable {disk : Disk} {table : FileTable} {file_manager : FileManager} {network : Network}
  {conn_obj : HTTPConnectionObject}

theorem handle_answerTo (hs : file_manager.Sound disk table) (str : Bytes) :
    (handle disk str file_manager).1 = answerTo disk table str := by
  cases hp : parseHttpRequest str with
  | ret result =>
    cases result with
    | ok request =>
      rw [(handle_accepted hs hp).1, answerTo, hp]
      rfl
    | error e =>
      rw [handle, answerTo, hp]
      rfl
  | throw e =>
    rw [handle, answerTo, hp]
    rfl
  | ub =>
    rw [handle, answerTo, hp]
    rfl
  | killed =>
    rw [handle, answerTo, hp]
    rfl

theorem quiet_handle (overlapped : Bytes → FileManager → Outcome (Option Bytes) × FileManager)
    (hs : file_manager.Sound disk table) (network : Network) {str : Bytes} {answer : Option Bytes}
    (ha : answerTo disk table str = ret answer) :
    (quiet (tcpCallPolicies (handle disk) overlapped)).handle str (file_manager, network) =
      (ret answer, (handle disk str file_manager).2, network) :=
  Prod.ext ((handle_answerTo hs str).trans ha) rfl

/-- A connection leaves its exchange on its socket and the other sockets alone. -/
theorem handleConnection_exchange
    (overlapped : Bytes → FileManager → Outcome (Option Bytes) × FileManager) (network : Network)
    (hs : file_manager.Sound disk table)
    (hr : (handle disk conn_obj.request file_manager).1.Returns) :
    handleConnection (quiet (tcpCallPolicies (handle disk) overlapped)).toPolicies conn_obj
        (file_manager, network) =
      (ret (), (handle disk conn_obj.request file_manager).2,
        Function.update network conn_obj.client_fd
          (exchange disk table (network conn_obj.client_fd) conn_obj)) := by
  rw [handle_answerTo hs] at hr
  obtain ⟨answer, ha⟩ := hr
  have hp := quiet_handle overlapped hs network ha
  cases answer with
  | some response =>
    rw [handleConnection_some hp, andThen_of_ret rfl, exchange, ha]
    refine Prod.ext rfl (Prod.ext rfl ?_)
    show Function.update (Function.update network _ _) _
      (ClientSocket.close (Function.update network _ _ _)) = _
    rw [Function.update_self, Function.update_idem]
  | none =>
    rw [handleConnection_none hp, exchange, ha]
    rfl

/-- By induction on the connections; the file manager stays sound. -/
theorem loop_sockets (overlapped : Bytes → FileManager → Outcome (Option Bytes) × FileManager)
    (network : Network) (hs : file_manager.Sound disk table) (conns : List HTTPConnectionObject)
    (hr : (loop (quiet (tcpCallPolicies (handle disk) overlapped)).toPolicies (conns.map some)
      (file_manager, network)).1.Returns) (fd : Int) :
    (loop (quiet (tcpCallPolicies (handle disk) overlapped)).toPolicies (conns.map some)
        (file_manager, network)).2.2 fd =
      (conns.filter fun conn => conn.client_fd = fd).foldl (exchange disk table) (network fd) := by
  induction conns generalizing file_manager network with
  | nil => rfl
  | cons conn conns ih =>
    rw [List.map_cons, loop_cons_returns_iff] at hr
    have hhandle : (handle disk conn.request file_manager).1.Returns :=
      (handleConnection_returns_iff (independent_tcp (handle disk) overlapped).sends_return conn
        (file_manager, network)).mp hr.1
    have hc := handleConnection_exchange overlapped network hs hhandle
    have hrest := hr.2
    rw [hc] at hrest
    rw [List.map_cons, loop, hc, andThen_ret]
    refine (ih _ (handle_sound hs conn.request) hrest).trans ?_
    by_cases hfd : conn.client_fd = fd
    · subst hfd
      rw [List.filter_cons_of_pos (by simp), List.foldl_cons, Function.update_self]
    · rw [List.filter_cons_of_neg (by simpa using hfd), Function.update_of_ne (Ne.symm hfd)]

/-! ## The pool -/

open Threadpool

/-- What the sockets have seen when the pool has drained. -/
theorem Threadpool.Serial.sockets {num_threads : Nat}
    {overlapped : Bytes → FileManager → Outcome (Option Bytes) × FileManager}
    {s : Threadpool HTTPConnectionObject (FileManager × Network) Unit num_threads}
    (h : Serial (quiet (tcpCallPolicies (handle disk) overlapped)) HTTPConnectionObject.client_fd
      (FileManager.fresh table, network) s) (hd : s.Drained) (fd : Int) :
    s.world.2 fd = (s.tasks.filter fun conn => conn.client_fd = fd).foldl (exchange disk table)
      (network fd) := by
  have hloop := h.goesOn hd.goesOn
  have hs := loop_sockets overlapped network (FileManager.sound_fresh disk table) s.served
    (hloop ▸ returns_ret ()) fd
  rw [hloop, settled_of_drained _ hd] at hs
  rw [← h.served_filter hd fd]
  exact hs

end SimpleServ.RequestProcessing
