import SimpleServ.RequestProcessing.PoolProgress
import SimpleServ.Server.HttpService

/-
  Whether a `TCPServer` can still answer (tcp_server.hpp).

  From a state of a run, the workers and the call of `add_task` in progress go on by themselves
  (`Alone`): nothing is accepted and nothing is read. A request is fatal when the handler throws
  on it, and a call of `send` when the peer has reset the connection (SIGPIPE). `Sending` says
  what the sockets and the end of the process have to do with the calls of `send`.

  `httpService_answers_iff`: there is such a run to the end, with every answer sent, exactly when
  no request that was read is fatal and none of the calls of `send` for them is. One that is
  fatal is enough for all the others.
-/

namespace SimpleServ.Server.HttpService

open SimpleServ.Cxx SimpleServ.Http SimpleServ.Lib SimpleServ.Utility
  SimpleServ.RequestProcessing Outcome

variable {num_threads : Nat} {disk : Disk}
  {overlapped : Bytes → FileManager → Outcome (Option Bytes) × FileManager} {table : FileTable}
  {kept : Bool} {s t : HttpService num_threads} {event : Event num_threads} {errno : Errno}
  {file_manager : FileManager} {network : Network}

/-! ## Fatal requests -/

/-- The handler throws on the request, from an empty cache. -/
def Fatal (disk : Disk) (table : FileTable) (str : Bytes) : Prop :=
  CutShort str ∨ StrayRequest str ∨ UnreadableRequest disk (FileManager.fresh table) str

theorem not_fatal_iff {str : Bytes} : ¬ Fatal disk table str ↔
    (handle disk str (FileManager.fresh table)).1.Returns := by
  rw [handle_returns_iff, Fatal, not_or, not_or]

/-- What the handler has in its cache has no part in it. -/
theorem answerTo_returns_iff {str : Bytes} :
    (answerTo disk table str).Returns ↔ ¬ Fatal disk table str := by
  rw [not_fatal_iff, handle_answerTo (FileManager.sound_fresh disk table)]

/-- A worker alone outlives the requests that are not fatal. -/
theorem loop_not_fatal
    (overlapped : Bytes → FileManager → Outcome (Option Bytes) × FileManager) (network : Network)
    {conns : List HTTPConnectionObject} :
    (loop (quiet (tcpCallPolicies (handle disk) overlapped)).toPolicies (conns.map some)
      (FileManager.fresh table, network)).1.Returns ↔
      ∀ conn ∈ conns, ¬ Fatal disk table conn.request := by
  have hsends := (independent_tcp (handle disk) overlapped).sends_return
  have hkeeps (str : Bytes) (conn_obj : HTTPConnectionObject) (world : FileManager × Network) :
      UnreadableRequest disk (handleConnection
        (quiet (tcpCallPolicies (handle disk) overlapped)).toPolicies conn_obj world).2.1 str ↔
        UnreadableRequest disk world.1 str :=
    handleConnection_keeps (P := fun world => UnreadableRequest disk world.1 str)
      (fun str' world => unreadableRequest_handle disk str' world.1 str)
      (fun _ _ _ => Iff.rfl) (fun _ _ => Iff.rfl) conn_obj world
  rw [loop_returns_iff (P := fun str (world : FileManager × Network) => ¬ CutShort str ∧
    ¬ StrayRequest str ∧ ¬ UnreadableRequest disk world.1 str) hsends
    (fun str world => handle_returns_iff disk str world.1)
    fun str conn_obj world => by rw [hkeeps]]
  simp only [List.mem_map, Option.some.injEq, exists_eq_right, Fatal, not_or]
  rfl

/-! ## Calls of `send` -/

def accepted (str : Bytes) : Bool :=
  match parseHttpRequest str with
  | ret (.ok _) => true
  | _ => false

/-- How often `send` is called on the descriptor for these connections. -/
def sends (conns : List HTTPConnectionObject) (fd : Int) : Nat :=
  (conns.filter fun conn => conn.client_fd = fd).countP fun conn => accepted conn.request

theorem accepted_eq_isSome {str : Bytes} {answer : Option Bytes}
    (h : answerTo disk table str = ret answer) : accepted str = answer.isSome := by
  obtain ⟨result, hp, hr⟩ := bind_eq_ret h
  rw [accepted, hp]
  cases result with
  | ok request =>
    dsimp only at hr
    cases ha : Http.answer disk table request with
    | ret response =>
      rw [ha] at hr
      cases hr
      rfl
    | throw e => rw [ha] at hr; cases hr
    | ub => rw [ha] at hr; cases hr
    | killed => rw [ha] at hr; cases hr
  | error e =>
    cases hr
    rfl

theorem exchange_calls (socket : ClientSocket) {conn : HTTPConnectionObject}
    (h : ¬ Fatal disk table conn.request) : (exchange disk table socket conn).calls =
      socket.calls + if accepted conn.request then 1 else 0 := by
  obtain ⟨answer, ha⟩ := answerTo_returns_iff.mpr h
  rw [exchange, ha, accepted_eq_isSome ha]
  cases answer <;> rfl

theorem exchanges_calls {conns : List HTTPConnectionObject}
    (h : ∀ conn ∈ conns, ¬ Fatal disk table conn.request) (socket : ClientSocket) :
    (conns.foldl (exchange disk table) socket).calls =
      socket.calls + conns.countP fun conn => accepted conn.request := by
  induction conns generalizing socket with
  | nil => rfl
  | cons conn conns ih =>
    rw [List.foldl_cons, ih fun conn hm => h conn (List.mem_cons_of_mem _ hm),
      exchange_calls socket (h conn List.mem_cons_self), List.countP_cons]
    omega

section Sockets

variable {conn_obj : HTTPConnectionObject} {response : Bytes} {world : FileManager × Network}

theorem sendMsg_socket (conn_obj : HTTPConnectionObject) (response : Bytes) (network : Network)
    (fd : Int) :
    ((TCPSender.sendMsg conn_obj response network).2 fd).answers = (network fd).answers ∧
      ((TCPSender.sendMsg conn_obj response network).2 fd).calls =
        (network fd).calls + if fd = conn_obj.client_fd then 1 else 0 := by
  show (Function.update network conn_obj.client_fd _ fd).answers = _ ∧
    (Function.update network conn_obj.client_fd _ fd).calls = _
  by_cases hfd : fd = conn_obj.client_fd
  · subst hfd
    rw [Function.update_self, if_pos rfl]
    exact ⟨rfl, rfl⟩
  · rw [Function.update_of_ne hfd, if_neg hfd]
    exact ⟨rfl, rfl⟩

theorem closeConnection_socket (conn_obj : HTTPConnectionObject) (network : Network) (fd : Int) :
    (TCPCloser.closeConnection conn_obj network fd).answers = (network fd).answers ∧
      (TCPCloser.closeConnection conn_obj network fd).calls = (network fd).calls := by
  unfold TCPCloser.closeConnection
  by_cases hfd : fd = conn_obj.client_fd
  · subst hfd
    rw [Function.update_self]
    exact ⟨rfl, rfl⟩
  · rw [Function.update_of_ne hfd]
    exact ⟨rfl, rfl⟩

/-- What a worker has left to do takes no call of `send` back. -/
theorem left_calls_le (pc : WorkerPc HTTPConnectionObject Unit) (world : FileManager × Network)
    (fd : Int) : (world.2 fd).calls ≤
      ((pc.left (quiet (tcpCallPolicies (handle disk) overlapped)) world).2 fd).calls := by
  cases pc with
  | popping => exact le_rfl
  | popped task => exact le_rfl
  | handling task => exact le_rfl
  | answered task response =>
    refine le_of_le_of_eq ?_ (closeConnection_socket task.obj _ fd).2.symm
    exact le_of_le_of_eq (Nat.le_add_right _ _)
      (sendMsg_socket task.obj response world.2 fd).2.symm
  | closing task call rest =>
    show _ ≤ ((callsFrom _ task.obj (call :: rest) world).2 fd).calls
    unfold callsFrom
    induction call :: rest generalizing world with
    | nil => exact le_rfl
    | cons call calls ih =>
      exact le_of_eq_of_le (closeConnection_socket task.obj world.2 fd).2.symm
        (ih (world.1, TCPCloser.closeConnection task.obj world.2))
  | ended => exact le_rfl

/-- A worker with an answer has a call of `send` left. -/
theorem left_calls_lt (task : RequestProcessing.Task HTTPConnectionObject) (response : Bytes)
    (world : FileManager × Network) : (world.2 task.obj.client_fd).calls <
      (((WorkerPc.answered task response).left
        (quiet (tcpCallPolicies (handle disk) overlapped)) world).2 task.obj.client_fd).calls := by
  refine lt_of_lt_of_eq ?_ (closeConnection_socket task.obj _ task.obj.client_fd).2.symm
  refine lt_of_lt_of_eq (Nat.lt_succ_self _) ?_
  have hcalls := (sendMsg_socket task.obj response world.2 task.obj.client_fd).2
  rw [if_pos rfl] at hcalls
  exact hcalls.symm

end Sockets

/-- What the calls of `send` have done to the sockets, and why the process has ended, if it has. -/
structure Sending (disk : Disk) (table : FileTable) (network : Network)
    (pool : Threadpool HTTPConnectionObject (FileManager × Network) Unit num_threads) : Prop where
  sound : pool.world.1.Sound disk table
  answers : ∀ fd, (pool.world.2 fd).answers = (network fd).answers
  calls_le : ∀ fd, (network fd).calls ≤ (pool.world.2 fd).calls
  unbroken : pool.terminated = false → ∀ fd n, (network fd).calls + n < (pool.world.2 fd).calls →
    (network fd).answers ((network fd).calls + n) ≠ .brokenPipe
  dead : pool.terminated = true → (∃ conn ∈ pool.tasks, Fatal disk table conn.request) ∨
    ∃ fd n, n < sends pool.tasks fd ∧
      (network fd).answers ((network fd).calls + n) = .brokenPipe

theorem sending_new (disk : Disk) (table : FileTable) (network : Network) :
    Sending disk table network (Threadpool.new HTTPConnectionObject Unit num_threads
      (FileManager.fresh table, network)) where
  sound := FileManager.sound_fresh disk table
  answers := fun _ => rfl
  calls_le := fun _ => le_rfl
  unbroken := fun _ _ _ hn => absurd hn (Nat.not_lt.mpr (Nat.le_add_right _ _))
  dead := nofun

section Step

variable {pool pool' : Threadpool HTTPConnectionObject (FileManager × Network) Unit num_threads}
  {event : Threadpool.Event HTTPConnectionObject num_threads} {i : Fin num_threads}
  {task : RequestProcessing.Task HTTPConnectionObject} {response : Bytes}

/-- A step that calls nothing of the sender. -/
theorem Sending.quietStep (h : Sending disk table network pool) (halive : pool.terminated = false)
    (hsound : pool'.world.1.Sound disk table)
    (hsockets : ∀ fd, (pool'.world.2 fd).answers = (pool.world.2 fd).answers ∧
      (pool'.world.2 fd).calls = (pool.world.2 fd).calls)
    (hdead : pool'.terminated = true → ∃ conn ∈ pool'.tasks, Fatal disk table conn.request) :
    Sending disk table network pool' where
  sound := hsound
  answers := fun fd => (hsockets fd).1.trans (h.answers fd)
  calls_le := fun fd => (hsockets fd).2 ▸ h.calls_le fd
  unbroken := fun _ fd n hn => h.unbroken halive fd n ((hsockets fd).2 ▸ hn)
  dead := fun hterm => .inl (hdead hterm)

/-- A worker that is about to call `send` has this call among those for the connections added. -/
theorem send_among (h : Threadpool.Serial (quiet (tcpCallPolicies (handle disk) overlapped))
      HTTPConnectionObject.client_fd (FileManager.fresh table, network) pool)
    (halive : pool.terminated = false) (hw : pool.workers i = .answered task response) :
    (pool.world.2 task.obj.client_fd).calls <
      (network task.obj.client_fd).calls + sends pool.tasks task.obj.client_fd := by
  have hloop := h.goesOn halive
  have hreturns : (loop (quiet (tcpCallPolicies (handle disk) overlapped)).toPolicies
      (pool.served.map some) (FileManager.fresh table, network)).1.Returns := by
    rw [hloop]
    exact returns_ret ()
  have hfine := (loop_not_fatal overlapped network).mp hreturns
  -- what the workers have left to do has this call in it, and takes none back
  have hmono : ∀ j ∈ List.finRange num_threads, ∀ world : FileManager × Network,
      (world.2 task.obj.client_fd).calls ≤ (((pool.workers j).left
        (quiet (tcpCallPolicies (handle disk) overlapped)) world).2 task.obj.client_fd).calls :=
    fun j _ world => left_calls_le _ _ _
  have hlt : (pool.world.2 task.obj.client_fd).calls < ((pool.settled
      (quiet (tcpCallPolicies (handle disk) overlapped))).2 task.obj.client_fd).calls := by
    refine settle_lt (f := fun world => (world.2 task.obj.client_fd).calls) hmono
      (List.mem_finRange i) (fun world => ?_) pool.world
    rw [hw]
    exact left_calls_lt task response world
  have hsockets := loop_sockets overlapped network (FileManager.sound_fresh disk table)
    pool.served hreturns task.obj.client_fd
  rw [hloop] at hsockets
  rw [hsockets, exchanges_calls fun conn hm => hfine conn (List.mem_of_mem_filter hm)] at hlt
  have hcount := (h.tracks.served_subperm.filter fun conn =>
    conn.client_fd = task.obj.client_fd).countP_le fun conn => accepted conn.request
  exact hlt.trans_le (Nat.add_le_add_left hcount _)

/-- The handler comes back, or throws. -/
theorem sound_handler (h : pool.world.1.Sound disk table)
    (hcalls : pool.handler (tcpCallPolicies (handle disk) overlapped) =
      (tcpCallPolicies (handle disk) overlapped).handle) {str : Bytes}
    {outcome : Outcome (Option Bytes)} {world : FileManager × Network}
    (hh : pool.handler (tcpCallPolicies (handle disk) overlapped) str pool.world =
      (outcome, world)) :
    answerTo disk table str = outcome ∧ world.1.Sound disk table ∧ world.2 = pool.world.2 := by
  rw [hcalls] at hh
  obtain ⟨rfl, rfl⟩ := Prod.mk.inj hh
  exact ⟨(handle_answerTo h str).symm, handle_sound h str, rfl⟩

theorem Sending.calls_le_send (h : Sending disk table network pool)
    (conn_obj : HTTPConnectionObject) (response : Bytes) (fd : Int) :
    (network fd).calls ≤ ((TCPSender.sendMsg conn_obj response pool.world.2).2 fd).calls := by
  rw [(sendMsg_socket conn_obj response pool.world.2 fd).2]
  exact (h.calls_le fd).trans (Nat.le_add_right _ _)

/-- A call of `send` that comes back was not broken, nor was one before it. -/
theorem Sending.unbroken_send (h : Sending disk table network pool)
    (halive : pool.terminated = false) {conn_obj : HTTPConnectionObject}
    (hs : (TCPSender.sendMsg conn_obj response pool.world.2).1 = ret ()) {fd : Int} {n : Nat}
    (hn : (network fd).calls + n <
      ((TCPSender.sendMsg conn_obj response pool.world.2).2 fd).calls) :
    (network fd).answers ((network fd).calls + n) ≠ .brokenPipe := by
  intro hb
  rw [(sendMsg_socket conn_obj response pool.world.2 fd).2] at hn
  rcases Nat.lt_or_ge ((network fd).calls + n) (pool.world.2 fd).calls with hlt | hge
  · exact h.unbroken halive fd n hlt hb
  · by_cases hfd : fd = conn_obj.client_fd
    · subst hfd
      rw [if_pos rfl] at hn
      have heq : (network conn_obj.client_fd).calls + n =
          (pool.world.2 conn_obj.client_fd).calls := by omega
      rw [heq, ← h.answers] at hb
      have hkilled : (TCPSender.sendMsg conn_obj response pool.world.2).1 = killed := if_pos hb
      cases hkilled.symm.trans hs
    · rw [if_neg hfd] at hn
      omega

/-- One that is broken is among those for the connections added. -/
theorem Sending.broken_among (h : Sending disk table network pool) {fd : Int}
    (hlt : (pool.world.2 fd).calls < (network fd).calls + sends pool.tasks fd)
    (hb : (pool.world.2 fd).answers (pool.world.2 fd).calls = .brokenPipe) :
    ∃ n, n < sends pool.tasks fd ∧
      (network fd).answers ((network fd).calls + n) = .brokenPipe := by
  have hle := h.calls_le fd
  refine ⟨(pool.world.2 fd).calls - (network fd).calls, by omega, ?_⟩
  rw [Nat.add_sub_cancel' hle, ← h.answers]
  exact hb

theorem Sending.work (h : Sending disk table network pool) (halive : pool.terminated = false)
    (hserial : Threadpool.Serial (quiet (tcpCallPolicies (handle disk) overlapped))
      HTTPConnectionObject.client_fd (FileManager.fresh table, network) pool)
    (hcalls : pool.handler (tcpCallPolicies (handle disk) overlapped) =
      (tcpCallPolicies (handle disk) overlapped).handle)
    (hs : Threadpool.Work (tcpCallPolicies (handle disk) overlapped) pool i pool') :
    Sending disk table network pool' := by
  have hdead {P : Prop} (hf : pool.terminated = true) : P := by
    rw [halive] at hf
    cases hf
  cases hs with
  | begin task hw => exact h.quietStep halive h.sound (fun _ => ⟨rfl, rfl⟩) hdead
  | answer task response world hw hh =>
    obtain ⟨-, hsound, hnetwork⟩ := sound_handler h.sound hcalls hh
    exact h.quietStep halive hsound (fun fd => by simp [hnetwork]) hdead
  | refuse task world hw hh =>
    obtain ⟨-, hsound, hnetwork⟩ := sound_handler h.sound hcalls hh
    exact h.quietStep halive hsound (fun fd => by simp [hnetwork]) hdead
  | fail task hw hh =>
    obtain ⟨ha, hsound, hnetwork⟩ := sound_handler h.sound hcalls (Prod.eta _).symm
    refine h.quietStep halive hsound (fun fd => by simp [hnetwork]) fun _ => ⟨task.obj, ?_, ?_⟩
    · exact List.mem_of_getElem?
        (hserial.tracks.task_obj i task (congrArg WorkerPc.task hw))
    · by_contra hfine
      rw [← answerTo_returns_iff] at hfine
      exact hh (ha ▸ hfine)
  | send task response hw hs =>
    have hsocket := sendMsg_socket task.obj response pool.world.2
    exact ⟨h.sound, fun fd => (hsocket fd).1.trans (h.answers fd),
      h.calls_le_send task.obj response, fun _ _ _ => h.unbroken_send halive hs, hdead⟩
  | sendFail task response hw hs =>
    have hsocket := sendMsg_socket task.obj response pool.world.2
    have hbroken : (pool.world.2 task.obj.client_fd).answers
        (pool.world.2 task.obj.client_fd).calls = .brokenPipe := by
      by_contra hb
      exact hs ⟨(), if_neg hb⟩
    exact ⟨h.sound, fun fd => (hsocket fd).1.trans (h.answers fd),
      h.calls_le_send task.obj response, fun hf => absurd hf Bool.true_eq_false.mp,
      fun _ => .inr ⟨_, h.broken_among (send_among hserial halive hw) hbroken⟩⟩
  | close task call hw =>
    exact h.quietStep halive h.sound (closeConnection_socket task.obj pool.world.2) hdead
  | closeOn task call next rest hw =>
    exact h.quietStep halive h.sound (closeConnection_socket task.obj pool.world.2) hdead

theorem Sending.step (h : Sending disk table network pool)
    (hserial : pool.terminated = false →
      Threadpool.Serial (quiet (tcpCallPolicies (handle disk) overlapped))
        HTTPConnectionObject.client_fd (FileManager.fresh table, network) pool)
    (hcalm : overlapped = handle disk ∨ pool.clashed = false)
    (hs : poolStep disk overlapped kept pool event = some pool') :
    Sending disk table network pool' := by
  obtain ⟨halive, hs⟩ := Threadpool.step_of_eq hs
  have hdead {P : Prop} (hf : pool.terminated = true) : P := by
    rw [halive] at hf
    cases hf
  cases hs with
  | addTask obj hp => exact h.quietStep halive h.sound (fun _ => ⟨rfl, rfl⟩) hdead
  | push hp => exact h.quietStep halive h.sound (fun _ => ⟨rfl, rfl⟩) hdead
  | poll i spurious hw hp => exact h.quietStep halive h.sound (fun _ => ⟨rfl, rfl⟩) hdead
  | receive i spurious task hw hp ht =>
    exact h.quietStep halive h.sound (fun _ => ⟨rfl, rfl⟩) hdead
  | work i t hs => exact h.work halive (hserial halive) (handler_of_calm hcalm) hs

end Step

/-! ## Runs -/

/-- A permitted step that needs nothing of the loop. -/
def Alone (s : HttpService num_threads) (event : Event num_threads) : Prop :=
  (s.Permitted event ∧ s.CallsApart event) ∧ ∀ answer, event ≠ .accept answer

/-- The records fit, and the pool is on its way to answer all that was read. -/
structure Answering (disk : Disk)
    (overlapped : Bytes → FileManager → Outcome (Option Bytes) × FileManager) (table : FileTable)
    (network : Network) (s : HttpService num_threads) : Prop where
  going : Threadpool.Going s.pool
  serving : Serving disk overlapped (FileManager.fresh table) network s
  sending : Sending disk table network s.pool

theorem Answering.step (h : Answering disk overlapped table network s)
    (hc : s.Permitted event ∧ s.CallsApart event)
    (hs : HttpService.step disk overlapped kept s event = some t) :
    Answering disk overlapped table network t := by
  have hserving := h.serving.step hc.1 (.inr hc.2) (step_of_eq hs)
  cases step_of_eq hs with
  | loop event server hs hn => exact ⟨h.going, hserving, h.sending⟩
  | handOver bytes server pool hp hserver hpc hpool =>
    have horderly : s.pool.QueueOrderly
        (.addTask ⟨s.server.client_fd, bytes.takeWhile (· ≠ 0)⟩) := trivial
    exact ⟨h.going.step horderly hpool, hserving,
      h.sending.step h.serving.serial h.serving.calm hpool⟩
  | pool event pool hn hpool =>
    exact ⟨h.going.step hc.1 hpool, hserving,
      h.sending.step h.serving.serial h.serving.calm hpool⟩

theorem answering_of_run {events : List (Event num_threads)}
    (hc : StepsMeet (fun s event => s.Permitted event ∧ s.CallsApart event)
      (step disk overlapped kept) (new num_threads errno (FileManager.fresh table) network) events)
    (hr : run (step disk overlapped kept)
      (new num_threads errno (FileManager.fresh table) network) events = some s) :
    Answering disk overlapped table network s :=
  run_invariant (fun _ _ _ h hc hs => h.step hc hs)
    ⟨Threadpool.going_new _, ⟨fun _ => Threadpool.serial_new _ _ _, .inr rfl,
      TcpServer.Pc.noConfusion⟩, sending_new disk table network⟩ hc hr

/-- The steps of the pool are steps of the service. -/
theorem reaches_pool (server : TcpServer)
    {pool pool' : Threadpool HTTPConnectionObject (FileManager × Network) Unit num_threads}
    (h : Reaches Threadpool.Unfed (poolStep disk overlapped kept) pool pool') :
    Reaches Alone (step disk overlapped kept) ⟨server, pool⟩ ⟨server, pool'⟩ := by
  refine h.map (HttpService.mk server) .pool fun pool event pool' hc hs => ?_
  refine ⟨⟨⟨hc.1, hc.2.1⟩, nofun⟩, ?_⟩
  cases event with
  | addTask obj => exact absurd rfl (hc.2.2 obj)
  | push => exact congrArg (Option.map (HttpService.mk server)) hs
  | pop i spurious => exact congrArg (Option.map (HttpService.mk server)) hs
  | work i => exact congrArg (Option.map (HttpService.mk server)) hs

theorem Answering.reaches (h : Answering disk overlapped table network s)
    (hr : Reaches Alone (HttpService.step disk overlapped kept) s t) :
    Answering disk overlapped table network t ∧ t.pool.tasks = s.pool.tasks := by
  obtain ⟨later, hc, hr⟩ := hr
  refine run_invariant (I := fun t : HttpService num_threads =>
    Answering disk overlapped table network t ∧ t.pool.tasks = s.pool.tasks) ?_ ⟨h, rfl⟩ hc hr
  rintro s' event t' ⟨h', htasks⟩ hc hs
  refine ⟨h'.step hc.1 hs, ?_⟩
  cases step_of_eq hs with
  | loop answer server hs hn => exact absurd rfl (hc.2 answer)
  | handOver bytes server pool hp hserver hpc hpool => exact absurd rfl (hc.2 _)
  | pool event pool hn hpool => exact (pool_frame hn hpool).1.trans htasks

/-- A pool that has drained has handled and answered all that was added. -/
theorem Answering.fine_of_drained (h : Answering disk overlapped table network s)
    (hd : s.pool.Drained) : (∀ conn ∈ s.pool.tasks, ¬ Fatal disk table conn.request) ∧
      ∀ fd n, n < sends s.pool.tasks fd →
        (network fd).answers ((network fd).calls + n) ≠ .brokenPipe := by
  have hserial := h.serving.serial hd.goesOn
  have hserved : ∀ conn ∈ s.pool.served, ¬ Fatal disk table conn.request := by
    refine (loop_not_fatal overlapped network).mp ?_
    rw [hserial.goesOn hd.goesOn]
    exact returns_ret ()
  have hfine : ∀ conn ∈ s.pool.tasks, ¬ Fatal disk table conn.request := by
    intro conn hm
    have hf : conn ∈ s.pool.tasks.filter fun obj => obj.client_fd = conn.client_fd :=
      List.mem_filter.mpr ⟨hm, decide_eq_true rfl⟩
    rw [← hserial.served_filter hd] at hf
    exact hserved conn (List.mem_of_mem_filter hf)
  refine ⟨hfine, fun fd n hn => h.sending.unbroken hd.goesOn fd n ?_⟩
  rw [hserial.sockets hd fd, exchanges_calls fun conn hm => hfine conn (List.mem_of_mem_filter hm)]
  exact Nat.add_lt_add_left hn _

/-- **The server can answer exactly when nothing is fatal.** From every state of a permitted run
    of a `TCPServer` with a worker, in which no two calls of the handler overlap, such a run of
    workers and queue alone leads to one in which the pool has drained and each socket has seen
    the answers to all that was read from it, if and only if the handler throws on none of the
    requests that were read so far and none of the calls of `send` for them breaks the pipe. -/
theorem httpService_answers_iff (disk : Disk)
    (overlapped : Bytes → FileManager → Outcome (Option Bytes) × FileManager) (table : FileTable)
    (network : Network) (num_threads : Nat) (i : Fin num_threads) (kept : Bool) (errno : Errno)
    (events : List (Event num_threads)) (s : HttpService num_threads)
    (hc : StepsMeet (fun s event => s.Permitted event ∧ s.CallsApart event)
      (step disk overlapped kept) (new num_threads errno (FileManager.fresh table) network) events)
    (hr : run (step disk overlapped kept)
      (new num_threads errno (FileManager.fresh table) network) events = some s) :
    (∃ t, Reaches Alone (step disk overlapped kept) s t ∧ t.pool.Drained ∧
      ∀ fd, t.pool.world.2 fd = ((arrivals events).filter fun conn => conn.client_fd = fd).foldl
        (exchange disk table) (network fd)) ↔
      (∀ conn ∈ arrivals events, ¬ Fatal disk table conn.request) ∧
        ∀ fd n, n < sends (arrivals events) fd →
          (network fd).answers ((network fd).calls + n) ≠ .brokenPipe := by
  have hs := answering_of_run hc hr
  rw [← arrivals_of_run hr]
  constructor
  · rintro ⟨t, ht, hd, -⟩
    obtain ⟨h, htasks⟩ := hs.reaches ht
    rw [← htasks]
    exact h.fine_of_drained hd
  · rintro ⟨hfine, hsends⟩
    obtain ⟨pool, hreach, htasks, hend⟩ := hs.going.reaches_end
      (tcpCallPolicies (handle disk) overlapped) (fun _ _ w => w) kept i
    have ht := reaches_pool s.server hreach
    obtain ⟨h, -⟩ := hs.reaches ht
    have hd : pool.Drained := hend.resolve_right fun hterm => by
      have hdead := h.sending.dead hterm
      rw [htasks] at hdead
      rcases hdead with ⟨conn, hm, hfatal⟩ | ⟨fd, n, hn, hb⟩
      · exact hfine conn hm hfatal
      · exact hsends fd n hn hb
    refine ⟨⟨s.server, pool⟩, ht, hd, fun fd => ?_⟩
    rw [← htasks]
    exact (h.serving.serial hd.goesOn).sockets hd fd

/-- A request has been read, and no worker has taken it up. -/
theorem httpService_answers_iff_getRoot : ∃ s t,
    run (step Disk.empty (handle Disk.empty) false) (new 4 (.other 0) (FileManager.fresh ∅)
      fun _ => { answers := fun _ => .takes 80 })
      [.accept (.stop_requested false), .accept (.accept4 (.ok 5)),
        .accept (.recv (.ok getRoot))] = some s ∧
    Reaches Alone (step Disk.empty (handle Disk.empty) false) s t ∧
    t.pool.world.2 5 = exchange Disk.empty ∅ { answers := fun _ => .takes 80 } ⟨5, getRoot⟩ := by
  have hb : getRoot.length ≤ MAXBUFLEN - 1 := by decide
  have hfine : ¬ Fatal Disk.empty ∅ getRoot := by
    rw [not_fatal_iff,
      (handle_accepted (FileManager.sound_fresh Disk.empty ∅) getRoot_accepted).1,
      answer_unlisted Disk.empty Std.ExtTreeMap.getElem?_empty]
    exact returns_ret _
  obtain ⟨s, hc, hr⟩ : ∃ s, StepsMeet (fun s event => s.Permitted event ∧ s.CallsApart event)
      (step Disk.empty (handle Disk.empty) false)
      (new 4 (.other 0) (FileManager.fresh ∅) fun _ => { answers := fun _ => .takes 80 })
      [.accept (.stop_requested false), .accept (.accept4 (.ok 5)),
        .accept (.recv (.ok getRoot))] ∧
      run (step Disk.empty (handle Disk.empty) false)
        (new 4 (.other 0) (FileManager.fresh ∅) fun _ => { answers := fun _ => .takes 80 })
      [.accept (.stop_requested false), .accept (.accept4 (.ok 5)),
        .accept (.recv (.ok getRoot))] = some s :=
    ⟨_, meets_run_cons ⟨nofun, trivial⟩ rfl (meets_run_cons ⟨fun _ _ _ _ => nofun, trivial⟩ rfl
      (meets_run_cons ⟨nofun, trivial⟩ (step_handOver rfl rfl rfl hb) ⟨trivial, rfl⟩))⟩
  obtain ⟨t, ht, -, hsockets⟩ := (httpService_answers_iff Disk.empty _ ∅ _ 4 (Fin.last 3) false
    _ _ s hc hr).mpr ⟨fun conn hm => by
      obtain rfl := List.mem_singleton.mp hm
      exact hfine, fun _ _ _ => nofun⟩
  exact ⟨s, t, hr, ht, hsockets 5⟩

end SimpleServ.Server.HttpService
