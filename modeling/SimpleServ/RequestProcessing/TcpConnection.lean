import Mathlib.Logic.Function.Basic
import SimpleServ.RequestProcessing.ConnectionHandler
import SimpleServ.Server.TcpServer

/-
  `TCPSender` and `TCPCloser` (tcp_connection.hpp), on non-blocking sockets.

  How a socket answers calls of `send` is fixed beforehand (`answers`), call by call: it takes
  a prefix of what is offered, it would block, or it fails for good. `SendMsg` calls `send`
  once and does not look at the result. A peer that has reset the connection makes `send` raise
  SIGPIPE (the flags are 0, and nothing ignores the signal), which ends the process.

  `closed_when_sent_iff`: when `handle_connection` closes the socket, the whole response has
  been taken or `send` has failed for good, exactly when the first answer is a failure for
  good or takes the whole response, or the response is empty.
-/

namespace SimpleServ.RequestProcessing

open SimpleServ.Cxx SimpleServ.Server Outcome

/-- An answer to `send`; `takes n` takes the first `n` bytes, or all if they are fewer. -/
inductive SendResult where
  | takes (n : Nat)
  | wouldBlock
  | fails
  /-- EPIPE, with its signal. -/
  | brokenPipe
  deriving DecidableEq, Repr

inductive SocketEvent where
  | took (bytes : Bytes)
  | blocked
  | failed
  | broken
  | closed
  deriving DecidableEq, Repr

/-- What an answer makes of a call that offers `bytes`. -/
def SendResult.event (bytes : Bytes) : SendResult → SocketEvent
  | .takes n => .took (bytes.take n)
  | .wouldBlock => .blocked
  | .fails => .failed
  | .brokenPipe => .broken

structure ClientSocket where
  /-- The answer to each call of `send`. -/
  answers : Nat → SendResult
  calls : Nat := 0
  log : List SocketEvent := []

namespace ClientSocket

/-- `send (fd, bytes, length, 0)` -/
def send (socket : ClientSocket) (bytes : Bytes) : ClientSocket :=
  { socket with
    calls := socket.calls + 1
    log := socket.log ++ [(socket.answers socket.calls).event bytes] }

def close (socket : ClientSocket) : ClientSocket :=
  { socket with log := socket.log ++ [.closed] }

end ClientSocket

/-- The sockets of the process. -/
abbrev Network := Int → ClientSocket

def TCPSender.sendMsg (conn_obj : HTTPConnectionObject) (response : Bytes) (network : Network) :
    Outcome Unit × Network :=
  let socket := network conn_obj.client_fd
  (if socket.answers socket.calls = .brokenPipe then killed else ret (),
    Function.update network conn_obj.client_fd (socket.send response))

def TCPCloser.closeConnection (conn_obj : HTTPConnectionObject) (network : Network) : Network :=
  Function.update network conn_obj.client_fd (network conn_obj.client_fd).close

/-- The worker's template parameters in `TCPServer`, with any handler on a world `H`. -/
def tcpPolicies {H : Type} (handle : Bytes → H → Outcome (Option Bytes) × H) :
    Policies HTTPConnectionObject (H × Network) where
  request := HTTPConnectionObject.request
  handle str world :=
    let (outcome, h) := handle str world.1
    (outcome, h, world.2)
  sendMsg conn_obj response world :=
    let (outcome, network) := TCPSender.sendMsg conn_obj response world.2
    (outcome, world.1, network)
  closeConnection conn_obj world := (world.1, TCPCloser.closeConnection conn_obj world.2)

/-- All bytes that a socket has taken. -/
def taken (log : List SocketEvent) : Bytes :=
  log.flatMap fun event => match event with
    | .took bytes => bytes
    | _ => []

/-- When the socket is closed, it has taken the response, or `send` has failed for good. -/
def ClosedWhenSent (response : Bytes) (log : List SocketEvent) : Prop :=
  ∀ before after, log = before ++ .closed :: after →
    taken before = response ∨ .failed ∈ before

/-! ## One connection -/

variable {H : Type} {handle : Bytes → H → Outcome (Option Bytes) × H}
  {conn_obj : HTTPConnectionObject} {h h' : H} {network : Network} {response : Bytes}
  {answers : Nat → SendResult}

theorem tcpPolicies_handle (hh : handle conn_obj.request h = (ret (some response), h')) :
    (tcpPolicies handle).handle ((tcpPolicies handle).request conn_obj) (h, network) =
      (ret (some response), h', network) := by
  show ((handle conn_obj.request h).1, (handle conn_obj.request h).2, network) = _
  rw [hh]

/-- What `handle_connection` does on the socket of a connection with a response. -/
theorem handleConnection_log
    (hh : handle conn_obj.request h = (ret (some response), h')) :
    ((handleConnection (tcpPolicies handle) conn_obj (h, network)).2.2 conn_obj.client_fd).log =
      ((network conn_obj.client_fd).send response).log ++
        if (network conn_obj.client_fd).answers (network conn_obj.client_fd).calls = .brokenPipe
          then [] else [.closed] := by
  rw [handleConnection_some (tcpPolicies_handle hh)]
  have hupdate (f : ClientSocket) : Function.update network conn_obj.client_fd f
      conn_obj.client_fd = f := Function.update_self ..
  show ((andThen (_, h', Function.update network conn_obj.client_fd _) _).2.2
    conn_obj.client_fd).log = _
  split
  · rw [List.append_nil]
    exact congrArg ClientSocket.log (hupdate _)
  · show (TCPCloser.closeConnection conn_obj (Function.update network conn_obj.client_fd _)
      conn_obj.client_fd).log = _
    rw [TCPCloser.closeConnection, Function.update_self, hupdate]
    rfl

/-- The one closing of a log is at its end. -/
theorem closedWhenSent_concat {event : SocketEvent} (he : event ≠ .closed) :
    ClosedWhenSent response [event, .closed] ↔ taken [event] = response ∨ event = .failed := by
  constructor
  · intro hs
    exact (hs [event] [] rfl).imp id fun hm => (List.mem_singleton.mp hm).symm
  · intro hs before after hlog
    rcases before with _ | ⟨first, before⟩
    · exact absurd (List.cons.inj hlog).1 he
    · obtain ⟨rfl, hrest⟩ := List.cons.inj hlog
      have hb : before = [] := by
        rcases before with _ | ⟨second, before⟩
        · rfl
        · have hl := congrArg List.length hrest
          simp at hl
      rw [hb]
      exact hs.imp id fun hf => List.mem_singleton.mpr hf.symm

theorem closedWhenSent_broken : ClosedWhenSent response [.broken] := by
  intro before after hlog
  have hm : SocketEvent.closed ∈ [SocketEvent.broken] := hlog ▸ by simp
  cases List.mem_singleton.mp hm

/-- **A connection is closed on a sent response exactly where the one call of `send` takes all of
    it or fails for good, with or without a signal.** -/
theorem closed_when_sent_iff (handle : Bytes → H → Outcome (Option Bytes) × H)
    (conn_obj : HTTPConnectionObject) (h h' : H) (network : Network) (response : Bytes)
    (answers : Nat → SendResult) (hsocket : network conn_obj.client_fd = { answers := answers })
    (hh : handle conn_obj.request h = (ret (some response), h')) :
    ClosedWhenSent response ((handleConnection (tcpPolicies handle) conn_obj
        (h, network)).2.2 conn_obj.client_fd).log ↔
      response = [] ∨ answers 0 = .fails ∨ answers 0 = .brokenPipe ∨
        ∃ n, answers 0 = .takes n ∧ response.length ≤ n := by
  have hlog (rest : List SocketEvent) :
      (ClientSocket.send { answers := answers } response).log ++ rest =
        (answers 0).event response :: rest := rfl
  rw [handleConnection_log hh, hsocket, hlog]
  dsimp only
  by_cases hb : answers 0 = .brokenPipe
  · -- the process is gone before the closing
    rw [if_pos hb, hb]
    exact iff_of_true closedWhenSent_broken (.inr (.inr (.inl rfl)))
  rw [if_neg hb]
  cases ha : answers 0 with
  | takes n =>
    have htake : taken [.took (response.take n)] = response.take n := List.append_nil _
    rw [SendResult.event, closedWhenSent_concat (by simp), htake, List.take_eq_self_iff]
    constructor
    · rintro (hle | hf)
      · exact .inr (.inr (.inr ⟨n, rfl, hle⟩))
      · cases hf
    · rintro (rfl | hf | hf | ⟨m, hm, hle⟩)
      · exact .inl (Nat.zero_le n)
      · cases hf
      · cases hf
      · cases hm
        exact .inl hle
  | wouldBlock =>
    rw [SendResult.event, closedWhenSent_concat (by simp)]
    constructor
    · rintro (he | hf)
      · exact .inl he.symm
      · cases hf
    · rintro (rfl | hf | hf | ⟨m, hm, -⟩)
      · exact .inl rfl
      · cases hf
      · cases hf
      · cases hm
  | fails =>
    rw [SendResult.event, closedWhenSent_concat (by simp)]
    exact iff_of_true (.inr rfl) (.inr (.inl rfl))
  | brokenPipe => exact absurd ha hb

/-- A handler that answers every request with `hello`. -/
def helloHandler (_request : Bytes) (_world : Unit) : Outcome (Option Bytes) × Unit :=
  (ret (some (lit "hello")), ())

/-- A socket with room for the response. -/
theorem closed_when_sent_iff_hello :
    ClosedWhenSent (lit "hello") ((handleConnection (tcpPolicies helloHandler) ⟨5, []⟩
        ((), fun _ => { answers := fun _ => .takes 8 })).2.2 5).log :=
  (closed_when_sent_iff helloHandler ⟨5, []⟩ () () _ (lit "hello") (fun _ => .takes 8) rfl rfl).mpr
    (.inr (.inr (.inr ⟨8, rfl, by decide⟩)))

/-- A socket that has room for three bytes: the other two are never offered again. -/
theorem not_closed_when_sent_short :
    ¬ ∀ (handle : Bytes → Unit → Outcome (Option Bytes) × Unit) (conn_obj : HTTPConnectionObject)
        (network : Network) (response : Bytes) (answers : Nat → SendResult),
      network conn_obj.client_fd = { answers := answers } →
      handle conn_obj.request () = (ret (some response), ()) →
        ClosedWhenSent response ((handleConnection (tcpPolicies handle) conn_obj
          ((), network)).2.2 conn_obj.client_fd).log := by
  intro hall
  have hs := hall helloHandler ⟨5, []⟩ (fun _ => { answers := fun _ => .takes 3 }) (lit "hello")
    (fun _ => .takes 3) rfl rfl
  rcases hs [.took (lit "hel")] [] rfl with ht | hf
  · exact absurd ht (by decide)
  · cases List.mem_singleton.mp hf

end SimpleServ.RequestProcessing
