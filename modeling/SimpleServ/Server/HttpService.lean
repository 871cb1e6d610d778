import SimpleServ.RequestProcessing.HttpPool
import SimpleServ.Server.RequestString

/-
  A `TCPServer` as a whole (tcp_server.hpp): the loop of `AcceptIncoming` and the pool.

  The thread of the loop is the one that pushes: it goes on when `add_task` has returned. Its
  steps and those of the workers interleave in any order, and an exception or a signal in a
  worker ends them all. The disk stays as it is; `overlapped` is what the handler gives once its
  calls have overlapped.

  `httpService_sockets`: where they do not, and once the pool has drained, each socket has seen
  the answers to what was read from it, in the order of the reads. The answers of the system
  calls decide that, and no scheduling does.
-/

namespace SimpleServ.Server

open SimpleServ.Cxx SimpleServ.Http SimpleServ.Lib SimpleServ.Utility
  SimpleServ.RequestProcessing Outcome

structure HttpService (num_threads : Nat) where
  server : TcpServer
  pool : Threadpool HTTPConnectionObject (FileManager × Network) Unit num_threads

namespace HttpService

/-- `accept` is an answer that the loop gets; `pool` is the next step of a call of `add_task`
    in progress, or of a worker. -/
inductive Event (num_threads : Nat) where
  | accept (event : TcpServer.Event)
  | pool (event : Threadpool.Event HTTPConnectionObject num_threads)

variable {num_threads : Nat}

def new (num_threads : Nat) (errno : Errno) (file_manager : FileManager) (network : Network) :
    HttpService num_threads where
  server := { errno := errno }
  pool := Threadpool.new HTTPConnectionObject Unit num_threads (file_manager, network)

def poolStep (disk : Disk)
    (overlapped : Bytes → FileManager → Outcome (Option Bytes) × FileManager) (kept : Bool)
    (pool : Threadpool HTTPConnectionObject (FileManager × Network) Unit num_threads)
    (event : Threadpool.Event HTTPConnectionObject num_threads) :
    Option (Threadpool HTTPConnectionObject (FileManager × Network) Unit num_threads) :=
  Threadpool.step (tcpCallPolicies (handle disk) overlapped) (fun _ _ w => w) kept pool event

def accept (disk : Disk)
    (overlapped : Bytes → FileManager → Outcome (Option Bytes) × FileManager) (kept : Bool)
    (s : HttpService num_threads) (event : TcpServer.Event) : Option (HttpService num_threads) := do
  let server ← TcpServer.acceptIncoming s.server event
  match addedTask s.server.log server.log with
  | some obj =>
    let pool ← poolStep disk overlapped kept s.pool (.addTask obj)
    return ⟨server, pool⟩
  | none => return ⟨server, s.pool⟩

def step (disk : Disk)
    (overlapped : Bytes → FileManager → Outcome (Option Bytes) × FileManager) (kept : Bool)
    (s : HttpService num_threads) : Event num_threads → Option (HttpService num_threads)
  | .accept event =>
    match s.pool.terminated, s.pool.queue.pusher with
    | false, .idle => s.accept disk overlapped kept event
    | _, _ => none
  | .pool (.addTask _) => none
  | .pool event => (poolStep disk overlapped kept s.pool event).map fun pool => ⟨s.server, pool⟩

/-- The steps of the queue are orderly, and the system does not give out a descriptor that is
    open. -/
def Permitted (s : HttpService num_threads) : Event num_threads → Prop
  | .accept event => ∀ fd : Nat, event = .accept4 (.ok fd) →
    ∀ (k : Nat) (obj : HTTPConnectionObject), s.pool.tasks[k]? = some obj →
      obj.client_fd = fd → k ∈ s.pool.closed
  | .pool event => s.pool.QueueOrderly event

/-- No call of the handler begins while another one is in progress. -/
def CallsApart (s : HttpService num_threads) : Event num_threads → Prop
  | .accept _ => True
  | .pool event => s.pool.CallsApart event

/-! ## What the system's answers bring -/

/-- The descriptor that `accept4` gave last, and the connections that were read so far. -/
def arrive (last : Int × List HTTPConnectionObject) :
    Event num_threads → Int × List HTTPConnectionObject
  | .accept (.accept4 (.ok fd)) => (fd, last.2)
  | .accept (.accept4 (.error _)) => (-1, last.2)
  | .accept (.recv (.ok bytes)) => (last.1, last.2 ++ [⟨last.1, bytes.takeWhile (· ≠ 0)⟩])
  | _ => last

/-- Each connection with its request: what was read, up to the first zero byte. -/
def arrivals (events : List (Event num_threads)) : List HTTPConnectionObject :=
  (events.foldl arrive (-1, [])).2

/-! ## The kinds of steps -/

section Steps

variable {disk : Disk} {overlapped : Bytes → FileManager → Outcome (Option Bytes) × FileManager}
  {kept : Bool} {s t : HttpService num_threads} {event : Event num_threads}

/-- The kinds of steps of the service. -/
inductive Step (disk : Disk)
    (overlapped : Bytes → FileManager → Outcome (Option Bytes) × FileManager) (kept : Bool)
    (s : HttpService num_threads) : Event num_threads → HttpService num_threads → Prop where
  | loop (event : TcpServer.Event) (server : TcpServer)
      (hs : TcpServer.Step s.server event server) (hn : ∀ bytes, event ≠ .recv (.ok bytes)) :
    Step disk overlapped kept s (.accept event) ⟨server, s.pool⟩
  | handOver (bytes : Bytes) (server : TcpServer) (pool)
      (hp : s.server.pc = .receiving) (hserver : server.client_fd = s.server.client_fd)
      (hpc : server.pc = .loop)
      (hpool : poolStep disk overlapped kept s.pool
        (.addTask ⟨s.server.client_fd, bytes.takeWhile (· ≠ 0)⟩) = some pool) :
    Step disk overlapped kept s (.accept (.recv (.ok bytes))) ⟨server, pool⟩
  | pool (event : Threadpool.Event HTTPConnectionObject num_threads) (pool)
      (hn : ∀ obj, event ≠ .addTask obj)
      (hpool : poolStep disk overlapped kept s.pool event = some pool) :
    Step disk overlapped kept s (.pool event) ⟨s.server, pool⟩

/-- Only a read adds a task. -/
theorem addedTask_of_step {server server' : TcpServer} {event : TcpServer.Event}
    (hs : TcpServer.Step server event server') (hn : ∀ bytes, event ≠ .recv (.ok bytes)) :
    addedTask server.log server'.log = none := by
  cases hs with
  | stop hp => exact addedTask_same _
  | goOn hp => exact addedTask_same _
  | acceptError hp errno => exact addedTask_accept4 _ _
  | accept hp he fd => exact addedTask_accept4 _ _
  | drop hp he fd => exact addedTask_accept4 _ _
  | wouldBlock hp => exact addedTask_same _
  | recvError hp errno he => exact addedTask_same _
  | handOver hp bytes hb => exact absurd rfl (hn bytes)

theorem step_of_accept {event : TcpServer.Event} (h : s.accept disk overlapped kept event = some t) :
    Step disk overlapped kept s (.accept event) t := by
  obtain ⟨server, hserver, h⟩ := Option.bind_eq_some_iff.mp h
  have hs := TcpServer.step_of_acceptIncoming hserver
  by_cases hn : ∀ bytes, event ≠ .recv (.ok bytes)
  · rw [addedTask_of_step hs hn] at h
    cases h
    exact .loop event server hs hn
  · obtain ⟨bytes, hb⟩ := not_forall.mp hn
    obtain rfl := not_not.mp hb
    cases hs with
    | handOver hp bytes hb =>
      dsimp only [Loop.addTask] at h
      rw [addedTask_addTask] at h
      obtain ⟨pool, hpool, h⟩ := Option.bind_eq_some_iff.mp h
      cases h
      rw [requestStr_readInto] at hpool
      exact .handOver bytes _ pool hp rfl rfl hpool

theorem step_of_eq (h : step disk overlapped kept s event = some t) :
    Step disk overlapped kept s event t := by
  cases event with
  | accept event =>
    dsimp only [step] at h
    split at h
    · exact step_of_accept h
    · cases h
  | pool event =>
    cases event with
    | addTask obj => cases h
    | push =>
      obtain ⟨pool, hpool, rfl⟩ := Option.map_eq_some_iff.mp h
      exact .pool .push pool nofun hpool
    | pop i spurious =>
      obtain ⟨pool, hpool, rfl⟩ := Option.map_eq_some_iff.mp h
      exact .pool (.pop i spurious) pool nofun hpool
    | work i =>
      obtain ⟨pool, hpool, rfl⟩ := Option.map_eq_some_iff.mp h
      exact .pool (.work i) pool nofun hpool

end Steps

/-! ## Runs -/

section Runs

variable {disk : Disk} {overlapped : Bytes → FileManager → Outcome (Option Bytes) × FileManager}
  {table : FileTable} {kept : Bool} {s t : HttpService num_threads} {event : Event num_threads}
  {errno : Errno} {file_manager : FileManager} {network : Network}

/-- A step of the pool adds no task of its own, and what is closed stays closed. -/
theorem pool_frame {pool pool' : Threadpool HTTPConnectionObject (FileManager × Network) Unit
      num_threads} {event : Threadpool.Event HTTPConnectionObject num_threads}
    (hn : ∀ obj, event ≠ .addTask obj) (h : poolStep disk overlapped kept pool event = some pool') :
    pool'.tasks = pool.tasks ∧ ∀ k ∈ pool.closed, k ∈ pool'.closed := by
  cases (Threadpool.step_of_eq h).2 with
  | addTask obj hp => exact absurd rfl (hn obj)
  | push hp => exact ⟨rfl, fun _ hk => hk⟩
  | poll i spurious hw hp => exact ⟨rfl, fun _ hk => hk⟩
  | receive i spurious task hw hp ht => exact ⟨rfl, fun _ hk => hk⟩
  | work i t hs =>
    cases hs with
    | begin task hw => exact ⟨rfl, fun _ hk => hk⟩
    | answer task response world hw hh => exact ⟨rfl, fun _ hk => hk⟩
    | refuse task world hw hh => exact ⟨rfl, fun _ hk => hk⟩
    | fail task hw hh => exact ⟨rfl, fun _ hk => hk⟩
    | send task response hw hs => exact ⟨rfl, fun _ hk => hk⟩
    | sendFail task response hw hs => exact ⟨rfl, fun _ hk => hk⟩
    | close task call hw => exact ⟨rfl, fun _ hk => List.mem_append_left _ hk⟩
    | closeOn task call next rest hw => exact ⟨rfl, fun _ hk => hk⟩

theorem tasks_addTask {pool pool' : Threadpool HTTPConnectionObject (FileManager × Network) Unit
      num_threads} {obj : HTTPConnectionObject}
    (h : poolStep disk overlapped kept pool (.addTask obj) = some pool') :
    pool'.tasks = pool.tasks ++ [obj] := by
  cases (Threadpool.step_of_eq h).2 with
  | addTask obj hp => rfl

/-- The record of the answers is that of the loop and of the pool. -/
theorem arrive_step (h : Step disk overlapped kept s event t) :
    arrive (s.server.client_fd, s.pool.tasks) event = (t.server.client_fd, t.pool.tasks) := by
  cases h with
  | loop event server hs hn =>
    cases hs with
    | stop hp => rfl
    | goOn hp => rfl
    | acceptError hp errno => rfl
    | accept hp he fd => rfl
    | drop hp he fd => rfl
    | wouldBlock hp => rfl
    | recvError hp errno he => rfl
    | handOver hp bytes hb => exact absurd rfl (hn bytes)
  | handOver bytes server pool hp hserver hpc hpool =>
    rw [arrive, tasks_addTask hpool, hserver]
  | pool event pool hn hpool =>
    rw [(pool_frame hn hpool).1]
    rfl

theorem arrivals_of_run {events : List (Event num_threads)}
    (hr : run (step disk overlapped kept) (new num_threads errno file_manager network) events =
      some s) :
    s.pool.tasks = arrivals events := by
  have h : events.foldl arrive (-1, []) = (s.server.client_fd, s.pool.tasks) := by
    refine run_induction (J := fun events (s : HttpService num_threads) =>
      events.foldl arrive (-1, []) = (s.server.client_fd, s.pool.tasks)) rfl ?_ hr
    intro events s event t ih hs
    rw [List.foldl_concat, ih, arrive_step (step_of_eq hs)]
  rw [arrivals, h]

/-- The pool is one worker as long as the process is alive, calls of the handler have not
    overlapped, or that makes no difference, and the descriptor that the loop is about to read
    from is the open one of no task. -/
structure Serving (disk : Disk)
    (overlapped : Bytes → FileManager → Outcome (Option Bytes) × FileManager)
    (file_manager : FileManager) (network : Network) (s : HttpService num_threads) : Prop where
  serial : s.pool.terminated = false →
    Threadpool.Serial (quiet (tcpCallPolicies (handle disk) overlapped))
      HTTPConnectionObject.client_fd (file_manager, network) s.pool
  calm : overlapped = handle disk ∨ s.pool.clashed = false
  fresh : s.server.pc = .receiving → ∀ (k : Nat) (obj : HTTPConnectionObject),
    s.pool.tasks[k]? = some obj → obj.client_fd = s.server.client_fd → k ∈ s.pool.closed

theorem handler_of_calm
    {pool : Threadpool HTTPConnectionObject (FileManager × Network) Unit num_threads}
    (h : overlapped = handle disk ∨ pool.clashed = false) :
    pool.handler (tcpCallPolicies (handle disk) overlapped) =
      (tcpCallPolicies (handle disk) overlapped).handle := by
  rcases h with rfl | h
  · unfold Threadpool.handler
    split <;> rfl
  · exact Threadpool.handler_eq _ h

/-- A step of the pool that leaves the process alive. -/
theorem serial_poolStep
    {pool pool' : Threadpool HTTPConnectionObject (FileManager × Network) Unit num_threads}
    {event : Threadpool.Event HTTPConnectionObject num_threads} {world : FileManager × Network}
    (h : pool.terminated = false →
      Threadpool.Serial (quiet (tcpCallPolicies (handle disk) overlapped))
        HTTPConnectionObject.client_fd world pool)
    (hcalm : overlapped = handle disk ∨ pool.clashed = false)
    (hc : pool.Permitted HTTPConnectionObject.client_fd event)
    (hs : poolStep disk overlapped kept pool event = some pool')
    (hterm : pool'.terminated = false) :
    Threadpool.Serial (quiet (tcpCallPolicies (handle disk) overlapped))
      HTTPConnectionObject.client_fd world pool' := by
  obtain ⟨halive, hs⟩ := Threadpool.step_of_eq (Threadpool.step_quiet hs hterm)
  exact (h halive).step (independent_tcp (handle disk) overlapped) halive (handler_of_calm hcalm)
    hc hs

theorem calm_poolStep
    {pool pool' : Threadpool HTTPConnectionObject (FileManager × Network) Unit num_threads}
    {event : Threadpool.Event HTTPConnectionObject num_threads}
    (h : overlapped = handle disk ∨ pool.clashed = false)
    (hc : overlapped = handle disk ∨ pool.CallsApart event)
    (hs : poolStep disk overlapped kept pool event = some pool') :
    overlapped = handle disk ∨ pool'.clashed = false := by
  rcases h with h | h
  · exact .inl h
  · exact hc.imp id fun hc => Threadpool.clashed_of_step hc h (Threadpool.step_of_eq hs).2

theorem Serving.step (h : Serving disk overlapped file_manager network s) (hc : s.Permitted event)
    (hapart : overlapped = handle disk ∨ s.CallsApart event)
    (hs : Step disk overlapped kept s event t) :
    Serving disk overlapped file_manager network t := by
  cases hs with
  | loop event server hs hn =>
    refine ⟨h.serial, h.calm, ?_⟩
    cases hs with
    | stop hp => nofun
    | goOn hp => nofun
    | acceptError hp errno => nofun
    | accept hp he fd => exact fun _ => hc fd rfl
    | drop hp he fd => nofun
    | wouldBlock hp => exact h.fresh
    | recvError hp errno he => nofun
    | handOver hp bytes hb => exact absurd rfl (hn bytes)
  | handOver bytes server pool hp hserver hpc hpool =>
    have hperm : s.pool.Permitted HTTPConnectionObject.client_fd
        (.addTask ⟨s.server.client_fd, bytes.takeWhile (· ≠ 0)⟩) := by
      refine ⟨trivial, ?_⟩
      rintro _ ⟨⟩
      exact h.fresh hp
    refine ⟨serial_poolStep h.serial h.calm hperm hpool,
      calm_poolStep h.calm (.inr fun i task he => ?_) hpool, fun hp' => ?_⟩
    · cases he
    · cases hpc.symm.trans hp'
  | pool event pool hn hpool =>
    have hperm : s.pool.Permitted HTTPConnectionObject.client_fd event :=
      ⟨hc, fun obj he => absurd he (hn obj)⟩
    obtain ⟨htasks, hclosed⟩ := pool_frame hn hpool
    refine ⟨serial_poolStep h.serial h.calm hperm hpool, calm_poolStep h.calm hapart hpool,
      fun hp k obj ho he => ?_⟩
    exact hclosed k (h.fresh hp k obj (htasks ▸ ho) he)

theorem serving_of_run {Cond : HttpService num_threads → Event num_threads → Prop}
    {events : List (Event num_threads)} (hperm : ∀ s event, Cond s event → s.Permitted event)
    (hapart : ∀ s event, Cond s event → overlapped = handle disk ∨ s.CallsApart event)
    (hc : StepsMeet Cond (step disk overlapped kept) (new num_threads errno file_manager network)
      events)
    (hr : run (step disk overlapped kept) (new num_threads errno file_manager network) events =
      some s) : Serving disk overlapped file_manager network s :=
  run_invariant (fun s event _ h hc hs => h.step (hperm s event hc) (hapart s event hc)
      (step_of_eq hs))
    ⟨fun _ => Threadpool.serial_new _ _ _, .inr rfl, TcpServer.Pc.noConfusion⟩ hc hr

end Runs

/-! ## One connection -/

section Visit

variable {disk : Disk} {overlapped : Bytes → FileManager → Outcome (Option Bytes) × FileManager}
  {kept : Bool} {s : HttpService num_threads} {bytes response : Bytes}
  {file_manager : FileManager}

theorem step_handOver (hterm : s.pool.terminated = false) (hpush : s.pool.queue.pusher = .idle)
    (hp : s.server.pc = .receiving) (hb : bytes.length ≤ MAXBUFLEN - 1) :
    step disk overlapped kept s (.accept (.recv (.ok bytes))) =
      some ⟨⟨s.server.addTask ⟨s.server.client_fd, bytes.takeWhile (· ≠ 0)⟩, .loop⟩,
        { s.pool with
          tasks := s.pool.tasks ++ [⟨s.server.client_fd, bytes.takeWhile (· ≠ 0)⟩]
          queue := SharedQueue.stepPush s.pool.queue }⟩ := by
  have ha : TcpServer.acceptIncoming s.server (.recv (.ok bytes)) =
      some ⟨s.server.addTask ⟨s.server.client_fd, bytes.takeWhile (· ≠ 0)⟩, .loop⟩ := by
    unfold TcpServer.acceptIncoming
    rw [hp]
    dsimp only
    rw [if_pos hb, requestStr_readInto]
  have hstep : step disk overlapped kept s (.accept (.recv (.ok bytes))) =
      s.accept disk overlapped kept (.recv (.ok bytes)) := by
    dsimp only [step]
    rw [hterm, hpush]
  rw [hstep, accept, ha, Option.bind_eq_bind, Option.bind_some]
  dsimp only [Loop.addTask]
  rw [addedTask_addTask]
  dsimp only
  rw [poolStep, Threadpool.step_addTask hterm hpush, Option.bind_eq_bind, Option.bind_some]
  rfl

theorem step_pool {pool : Threadpool HTTPConnectionObject (FileManager × Network) Unit num_threads}
    {i : Fin num_threads} (h : poolStep disk overlapped kept s.pool (.work i) = some pool) :
    step disk overlapped kept s (.pool (.work i)) = some ⟨s.server, pool⟩ :=
  Option.map_eq_some_iff.mpr ⟨pool, h, rfl⟩

/-- A connection is accepted and read; the last worker pops it, answers and closes. -/
def readOnce (bytes : Bytes) : List (Event 4) :=
  [.accept (.stop_requested false), .accept (.accept4 (.ok 5)), .accept (.recv (.ok bytes))] ++
    List.replicate 3 (.pool .push) ++ List.replicate 5 (.pool (.pop (Fin.last 3) false)) ++
    List.replicate 4 (.pool (.work (Fin.last 3)))

theorem readOnce_runs (overlapped : Bytes → FileManager → Outcome (Option Bytes) × FileManager)
    (hb : bytes.length ≤ MAXBUFLEN - 1)
    (hh : (handle disk (bytes.takeWhile (· ≠ 0)) file_manager).1 = ret (some response))
    (network : Network)
    (hs : (TCPSender.sendMsg ⟨5, bytes.takeWhile (· ≠ 0)⟩ response network).1 = ret ()) : ∃ s,
    (StepsMeet (fun s event => s.Permitted event ∧ s.CallsApart event)
        (step disk overlapped false) (new 4 (.other 0) file_manager network) (readOnce bytes) ∧
      run (step disk overlapped false) (new 4 (.other 0) file_manager network) (readOnce bytes) =
        some s) ∧
    s.pool.Drained := by
  have hpop {s : HttpService 4} (h : ∀ head, s.pool.queue.pops (Fin.last 3) = .checked head →
      s.pool.queue.queue.empty = false) : s.Permitted (.pool (.pop (Fin.last 3) false)) ∧
        s.CallsApart (.pool (.pop (Fin.last 3) false)) :=
    ⟨fun head hp _ _ => h head hp, nofun⟩
  have hwork {s : HttpService 4} (h : s.pool.calling = false) :
      s.Permitted (.pool (.work (Fin.last 3))) ∧ s.CallsApart (.pool (.work (Fin.last 3))) :=
    ⟨trivial, fun _ _ _ _ => h⟩
  have hbusy {s : HttpService 4} (h : ∀ task, s.pool.workers (Fin.last 3) ≠ .popped task) :
      s.Permitted (.pool (.work (Fin.last 3))) ∧ s.CallsApart (.pool (.work (Fin.last 3))) :=
    ⟨trivial, Threadpool.callsApart_of_busy h⟩
  have hhandle : (tcpCallPolicies (handle disk) overlapped).handle (bytes.takeWhile (· ≠ 0))
      (file_manager, network) = (ret (some response),
        (handle disk (bytes.takeWhile (· ≠ 0)) file_manager).2, network) := by
    rw [← hh]
    rfl
  refine ⟨_, meets_run_cons ⟨nofun, trivial⟩ rfl
    (meets_run_cons ⟨fun _ _ _ _ => nofun, trivial⟩ rfl
    (meets_run_cons ⟨nofun, trivial⟩ (step_handOver rfl rfl rfl hb)
    (meets_run_cons ⟨⟨fun _ _ _ => nofun, nofun⟩, nofun⟩ rfl
    (meets_run_cons ⟨⟨nofun, fun _ _ _ => rfl⟩, nofun⟩ rfl
    (meets_run_cons ⟨⟨nofun, nofun⟩, nofun⟩ rfl (meets_run_cons (hpop nofun) rfl
    (meets_run_cons (hpop nofun) rfl (meets_run_cons (hpop fun _ _ => rfl) rfl
    (meets_run_cons (hpop nofun) rfl (meets_run_cons (hpop nofun) rfl
    (meets_run_cons (hwork rfl) rfl
    (meets_run_cons (hbusy nofun) (step_pool (Threadpool.step_answer rfl rfl rfl hhandle))
    (meets_run_cons (hbusy nofun) (step_pool (Threadpool.step_send rfl rfl hs))
    (meets_run_cons (hbusy nofun) rfl ⟨trivial, rfl⟩)))))))))))))),
    rfl, rfl, rfl, ?_, ?_⟩
  · intro i
    fin_cases i <;> exact trivial
  · intro i
    fin_cases i <;> rfl

end Visit

/-- **The server is a function of what it reads.** In every permitted run of a `TCPServer` in
    which no two calls of the handler overlap, once the pool has drained, each socket has seen
    the answers to the requests that were read from it, in the order of the reads: the loop, the
    queue and the workers leave no trace of their interleaving. -/
theorem httpService_sockets (disk : Disk)
    (overlapped : Bytes → FileManager → Outcome (Option Bytes) × FileManager) (table : FileTable)
    (network : Network) (num_threads : Nat) (kept : Bool) (errno : Errno)
    (events : List (Event num_threads)) (s : HttpService num_threads)
    (hc : StepsMeet (fun s event => s.Permitted event ∧ s.CallsApart event)
      (step disk overlapped kept) (new num_threads errno (FileManager.fresh table) network) events)
    (hr : run (step disk overlapped kept)
      (new num_threads errno (FileManager.fresh table) network) events = some s)
    (hd : s.pool.Drained) (fd : Int) :
    s.pool.world.2 fd = ((arrivals events).filter fun conn => conn.client_fd = fd).foldl
      (exchange disk table) (network fd) := by
  rw [← arrivals_of_run hr]
  have hs := serving_of_run (fun _ _ h => h.1) (fun _ _ h => .inr h.2) hc hr
  exact (hs.serial hd.goesOn).sockets hd fd

theorem httpService_sockets_getRoot : ∃ s,
    run (step Disk.empty (handle Disk.empty) false) (new 4 (.other 0) (FileManager.fresh ∅)
      fun _ => { answers := fun _ => .takes 80 }) (readOnce getRoot) = some s ∧
    s.pool.world.2 5 =
      (ClientSocket.send { answers := fun _ => .takes 80 } notFoundMessage).close := by
  obtain ⟨ha, -⟩ := handle_accepted (FileManager.sound_fresh Disk.empty ∅) getRoot_accepted
  rw [answer_unlisted Disk.empty Std.ExtTreeMap.getElem?_empty] at ha
  have hb : getRoot.length ≤ MAXBUFLEN - 1 := by decide
  obtain ⟨s, ⟨hc, hr⟩, hd⟩ := readOnce_runs (handle Disk.empty) hb ha
    (fun _ => { answers := fun _ => .takes 80 }) rfl
  refine ⟨s, hr, ?_⟩
  rw [httpService_sockets Disk.empty _ ∅ _ 4 false _ _ s hc hr hd 5]
  show exchange Disk.empty ∅ _ ⟨5, getRoot.takeWhile (· ≠ 0)⟩ = _
  rw [show getRoot.takeWhile (· ≠ 0) = getRoot by decide, exchange, answerTo_empty,
    getRoot_accepted]
  rfl

end HttpService

end SimpleServ.Server
