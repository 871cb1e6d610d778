import SimpleServ.RequestProcessing.TlsAnswers
import SimpleServ.Server.RequestString

/-
  A `TLSServer` as a whole (tls_server.hpp): the loop of `AcceptIncoming` and the pool.

  The steps interleave as those of a `TCPServer` do, and the disk stays as it is. In the pool a
  descriptor is the connection's own from the call of `add_task` on; the alert of an earlier
  connection, which may come on it between `accept4` and that call, is left out here.

  `tlsService_answers`: where calls of the handler do not overlap and the answers are shorter than
  2^31 bytes, each connection receives the answer to what was read from it, once or not at all,
  and when the pool has drained, the answers of the system calls have decided which.
-/

namespace SimpleServ.Server

open SimpleServ.Cxx SimpleServ.Http SimpleServ.Lib SimpleServ.Utility
  SimpleServ.RequestProcessing Outcome

structure TlsService (num_threads : Nat) where
  server : TlsServer
  pool : Threadpool HTTPSConnectionObject (FileManager × TlsNetwork) TlsCall num_threads

namespace TlsService

/-- `accept` is an answer that the loop gets; `pool` is the next step of a call of `add_task`
    in progress, or of a worker. -/
inductive Event (num_threads : Nat) where
  | accept (event : TlsServer.Event)
  | pool (event : Threadpool.Event HTTPSConnectionObject num_threads)

variable {num_threads : Nat}

def new (num_threads : Nat) (errno : Errno) (file_manager : FileManager)
    (sessions : Nat → TlsSession) : TlsService num_threads where
  server := { errno := errno }
  pool := Threadpool.new HTTPSConnectionObject TlsCall num_threads
    (file_manager, { sessions := sessions })

def poolStep (disk : Disk)
    (overlapped : Bytes → FileManager → Outcome (Option Bytes) × FileManager) (kept : Bool)
    (pool : Threadpool HTTPSConnectionObject (FileManager × TlsNetwork) TlsCall num_threads)
    (event : Threadpool.Event HTTPSConnectionObject num_threads) :
    Option (Threadpool HTTPSConnectionObject (FileManager × TlsNetwork) TlsCall num_threads) :=
  Threadpool.step (tlsCallPolicies (handle disk) overlapped) Threadpool.connect kept pool event

def accept (disk : Disk)
    (overlapped : Bytes → FileManager → Outcome (Option Bytes) × FileManager) (kept : Bool)
    (s : TlsService num_threads) (event : TlsServer.Event) : Option (TlsService num_threads) := do
  let server ← TlsServer.acceptIncoming s.server event
  match addedTask s.server.log server.log with
  | some obj =>
    let pool ← poolStep disk overlapped kept s.pool (.addTask obj)
    return ⟨server, pool⟩
  | none => return ⟨server, s.pool⟩

def step (disk : Disk)
    (overlapped : Bytes → FileManager → Outcome (Option Bytes) × FileManager) (kept : Bool)
    (s : TlsService num_threads) : Event num_threads → Option (TlsService num_threads)
  | .accept event =>
    match s.pool.terminated, s.pool.queue.pusher with
    | false, .idle => s.accept disk overlapped kept event
    | _, _ => none
  | .pool (.addTask _) => none
  | .pool event => (poolStep disk overlapped kept s.pool event).map fun pool => ⟨s.server, pool⟩

/-- The steps of the queue are orderly, the system does not give out a descriptor that is open,
    and a WOLFSSL object is a new one. -/
def Permitted (s : TlsService num_threads) : Event num_threads → Prop
  | .accept event => (∀ fd : Nat, event = .accept4 (.ok fd) → s.pool.world.2.peer fd = none) ∧
    ∀ ssl, event = .wolfSSL_new (some ssl) → ∀ (k : Nat) (obj : HTTPSConnectionObject),
      s.pool.tasks[k]? = some obj → obj.ssl ≠ some ssl
  | .pool event => s.pool.QueueOrderly event

/-- No call of the handler begins while another one is in progress. -/
def CallsApart (s : TlsService num_threads) : Event num_threads → Prop
  | .accept _ => True
  | .pool event => s.pool.CallsApart event

/-! ## What the system's answers bring -/

/-- What the loop has of its connection, and the connections that were read so far. -/
structure Arrived where
  client_fd : Int := -1
  ssl : Option Nat := none
  conns : List HTTPSConnectionObject := []

def arrive (last : Arrived) : Event num_threads → Arrived
  | .accept (.accept4 (.ok fd)) => { last with client_fd := fd }
  | .accept (.accept4 (.error _)) => { last with client_fd := -1 }
  | .accept (.wolfSSL_new ssl) => { last with ssl := ssl }
  | .accept (.wolfSSL_read numbytes bytes err) =>
    if err = .WANT_READ ∨ numbytes < 0 then last
    else { last with conns := last.conns ++ [⟨last.client_fd, last.ssl, bytes.takeWhile (· ≠ 0)⟩] }
  | _ => last

/-- Each connection with its object and its request: what the last read gave, up to the first
    zero byte. -/
def arrivals (events : List (Event num_threads)) : List HTTPSConnectionObject :=
  (events.foldl arrive {}).conns

/-! ## The kinds of steps -/

section Steps

variable {disk : Disk} {overlapped : Bytes → FileManager → Outcome (Option Bytes) × FileManager}
  {kept : Bool} {s t : TlsService num_threads} {event : Event num_threads}

/-- The read that hands the connection over to the pool. -/
def HandsOver (event : TlsServer.Event) : Prop :=
  ∃ numbytes bytes err, event = .wolfSSL_read numbytes bytes err ∧ err ≠ .WANT_READ ∧ 0 ≤ numbytes

/-- The kinds of steps of the service. -/
inductive Step (disk : Disk)
    (overlapped : Bytes → FileManager → Outcome (Option Bytes) × FileManager) (kept : Bool)
    (s : TlsService num_threads) : Event num_threads → TlsService num_threads → Prop where
  | loop (event : TlsServer.Event) (server : TlsServer)
      (hs : TlsServer.Step s.server event server) (hn : ¬ HandsOver event) :
    Step disk overlapped kept s (.accept event) ⟨server, s.pool⟩
  | handOver (numbytes : Int) (bytes : Bytes) (err : TlsServer.SslError) (server : TlsServer) (pool)
      (hp : s.server.pc = .reading) (he : err ≠ .WANT_READ) (hn : 0 ≤ numbytes)
      (hserver : server.client_fd = s.server.client_fd) (hssl : server.ssl = s.server.ssl)
      (hpc : server.pc = .loop)
      (hpool : poolStep disk overlapped kept s.pool (.addTask
        ⟨s.server.client_fd, s.server.ssl, bytes.takeWhile (· ≠ 0)⟩) = some pool) :
    Step disk overlapped kept s (.accept (.wolfSSL_read numbytes bytes err)) ⟨server, pool⟩
  | pool (event : Threadpool.Event HTTPSConnectionObject num_threads) (pool)
      (hn : ∀ obj, event ≠ .addTask obj)
      (hpool : poolStep disk overlapped kept s.pool event = some pool) :
    Step disk overlapped kept s (.pool event) ⟨s.server, pool⟩

theorem step_of_accept {event : TlsServer.Event} (h : s.accept disk overlapped kept event = some t) :
    Step disk overlapped kept s (.accept event) t := by
  obtain ⟨server, hserver, h⟩ := Option.bind_eq_some_iff.mp h
  have hquiet (hadd : addedTask s.server.log server.log = none) (hn : ¬ HandsOver event) :
      Step disk overlapped kept s (.accept event) t := by
    rw [hadd] at h
    cases h
    exact .loop event server (TlsServer.step_of_acceptIncoming hserver) hn
  cases TlsServer.step_of_acceptIncoming hserver with
  | stop hp => exact hquiet (addedTask_same _) (by simp [HandsOver])
  | goOn hp => exact hquiet (addedTask_same _) (by simp [HandsOver])
  | acceptError hp errno => exact hquiet (addedTask_accept4 _ _) (by simp [HandsOver])
  | accept hp he fd => exact hquiet (addedTask_accept4 _ _) (by simp [HandsOver])
  | drop hp he fd => exact hquiet (addedTask_accept4 _ _) (by simp [HandsOver])
  | create hp ssl => exact hquiet (addedTask_same _) (by simp [HandsOver])
  | handshake hp ret => exact hquiet (addedTask_same _) (by simp [HandsOver])
  | readAgain hp numbytes bytes => exact hquiet (addedTask_same _) (by simp [HandsOver])
  | readError hp numbytes bytes err he hn =>
    exact hquiet (addedTask_same _) (by simp [HandsOver, hn])
  | handOver hp numbytes bytes err he hn hb =>
    dsimp only [Loop.addTask] at h
    rw [addedTask_addTask] at h
    obtain ⟨pool, hpool, h⟩ := Option.bind_eq_some_iff.mp h
    cases h
    rw [← hb, requestStr_readInto] at hpool
    exact .handOver numbytes bytes err _ pool hp he (not_lt.mp hn) rfl rfl rfl hpool

theorem step_of_eq (h : step disk overlapped kept s event = some t) :
    Step disk overlapped kept s event t := by
  cases event with
  | accept event =>
    dsimp only [step] at h
    split at h
    · exact step_of_accept h
    · cases h
  | pool event =>
    cases event with
    | addTask obj => cases h
    | push =>
      obtain ⟨pool, hpool, rfl⟩ := Option.map_eq_some_iff.mp h
      exact .pool .push pool nofun hpool
    | pop i spurious =>
      obtain ⟨pool, hpool, rfl⟩ := Option.map_eq_some_iff.mp h
      exact .pool (.pop i spurious) pool nofun hpool
    | work i =>
      obtain ⟨pool, hpool, rfl⟩ := Option.map_eq_some_iff.mp h
      exact .pool (.work i) pool nofun hpool

end Steps

/-! ## Runs -/

section Runs

variable {disk : Disk} {overlapped : Bytes → FileManager → Outcome (Option Bytes) × FileManager}
  {table : FileTable} {kept : Bool} {s t : TlsService num_threads} {event : Event num_threads}
  {errno : Errno} {file_manager : FileManager} {sessions : Nat → TlsSession}

/-- A step of the pool adds no task of its own, and gives no descriptor away. -/
theorem pool_frame {pool pool' : Threadpool HTTPSConnectionObject (FileManager × TlsNetwork)
      TlsCall num_threads} {event : Threadpool.Event HTTPSConnectionObject num_threads}
    (hn : ∀ obj, event ≠ .addTask obj) (h : poolStep disk overlapped kept pool event = some pool') :
    pool'.tasks = pool.tasks ∧
      ∀ fd, pool.world.2.peer fd = none → pool'.world.2.peer fd = none := by
  cases (Threadpool.step_of_eq h).2 with
  | addTask obj hp => exact absurd rfl (hn obj)
  | push hp => exact ⟨rfl, fun _ hfd => hfd⟩
  | poll i spurious hw hp => exact ⟨rfl, fun _ hfd => hfd⟩
  | receive i spurious task hw hp ht => exact ⟨rfl, fun _ hfd => hfd⟩
  | work i t hs =>
    cases hs with
    | begin task hw => exact ⟨rfl, fun _ hfd => hfd⟩
    | answer task response world hw hh =>
      have hworld : world.2 = pool.world.2 :=
        (congrArg (fun p => p.2.2) hh).symm.trans (Threadpool.tls_handler_network _ pool.world)
      exact ⟨rfl, fun _ hfd => hworld ▸ hfd⟩
    | refuse task world hw hh =>
      have hworld : world.2 = pool.world.2 :=
        (congrArg (fun p => p.2.2) hh).symm.trans (Threadpool.tls_handler_network _ pool.world)
      exact ⟨rfl, fun _ hfd => hworld ▸ hfd⟩
    | fail task hw hh =>
      exact ⟨rfl, fun _ hfd => (Threadpool.tls_handler_network _ pool.world).symm ▸ hfd⟩
    | sendFail task response hw hs => exact absurd ⟨(), rfl⟩ hs
    | send task response hw hs =>
      refine ⟨rfl, fun fd hfd => ?_⟩
      exact (congrFun (Threadpool.sendMsg_peer task.obj response pool.world.2) fd).trans hfd
    | close task call hw => exact ⟨rfl, fun _ => Threadpool.peer_call_none⟩
    | closeOn task call next rest hw => exact ⟨rfl, fun _ => Threadpool.peer_call_none⟩

theorem tasks_addTask {pool pool' : Threadpool HTTPSConnectionObject (FileManager × TlsNetwork)
      TlsCall num_threads} {obj : HTTPSConnectionObject}
    (h : poolStep disk overlapped kept pool (.addTask obj) = some pool') :
    pool'.tasks = pool.tasks ++ [obj] := by
  cases (Threadpool.step_of_eq h).2 with
  | addTask obj hp => rfl

/-- The record of the answers is that of the loop and of the pool. -/
theorem arrive_step (h : Step disk overlapped kept s event t) :
    arrive ⟨s.server.client_fd, s.server.ssl, s.pool.tasks⟩ event =
      ⟨t.server.client_fd, t.server.ssl, t.pool.tasks⟩ := by
  cases h with
  | loop event server hs hn =>
    cases hs with
    | stop hp => rfl
    | goOn hp => rfl
    | acceptError hp errno => rfl
    | accept hp he fd => rfl
    | drop hp he fd => rfl
    | create hp ssl => rfl
    | handshake hp ret => rfl
    | readAgain hp numbytes bytes => rw [arrive, if_pos (Or.inl rfl)]
    | readError hp numbytes bytes err he hneg => rw [arrive, if_pos (Or.inr hneg)]
    | handOver hp numbytes bytes err he hpos hb =>
      exact absurd ⟨numbytes, bytes, err, rfl, he, not_lt.mp hpos⟩ hn
  | handOver numbytes bytes err server pool hp he hn hserver hssl hpc hpool =>
    rw [arrive, if_neg (not_or.mpr ⟨he, not_lt.mpr hn⟩), tasks_addTask hpool, hserver, hssl]
  | pool event pool hn hpool =>
    rw [(pool_frame hn hpool).1]
    rfl

theorem arrivals_of_run {events : List (Event num_threads)}
    (hr : run (step disk overlapped kept) (new num_threads errno file_manager sessions) events =
      some s) :
    s.pool.tasks = arrivals events := by
  have h : events.foldl arrive {} = ⟨s.server.client_fd, s.server.ssl, s.pool.tasks⟩ := by
    refine run_induction (J := fun events (s : TlsService num_threads) =>
      events.foldl arrive {} = ⟨s.server.client_fd, s.server.ssl, s.pool.tasks⟩) rfl ?_ hr
    intro events s event t ih hs
    rw [List.foldl_concat, ih, arrive_step (step_of_eq hs)]
  rw [arrivals, h]

/-- The loop has a connection that is not in the pool yet. -/
def Taken : TlsServer.Pc → Prop
  | .creating | .handshaking | .reading => True
  | .loop | .accepting | .returned => False

/-- It has a WOLFSSL object for it. -/
def Created : TlsServer.Pc → Prop
  | .handshaking | .reading => True
  | .loop | .accepting | .creating | .returned => False

/-- The pool answers as it should, calls of the handler have not overlapped, and the loop's
    connection is a new one. -/
structure Serving (disk : Disk) (table : FileTable) (sessions : Nat → TlsSession)
    (s : TlsService num_threads) : Prop where
  answered : Threadpool.Answered (fun file_manager => file_manager.Sound disk table)
    (expectedAnswer disk table) sessions s.pool
  calm : s.pool.clashed = false
  fresh_fd : Taken s.server.pc → s.pool.world.2.peer s.server.client_fd = none
  fresh_ssl : Created s.server.pc → ∀ ssl, s.server.ssl = some ssl →
    ∀ (k : Nat) (obj : HTTPSConnectionObject), s.pool.tasks[k]? = some obj → obj.ssl ≠ some ssl

theorem answered_poolStep {pool pool' : Threadpool HTTPSConnectionObject
      (FileManager × TlsNetwork) TlsCall num_threads}
    {event : Threadpool.Event HTTPSConnectionObject num_threads}
    (hshort : ∀ str response, expectedAnswer disk table str = some response →
      response.length < 2 ^ 31)
    (h : Threadpool.Answered (fun file_manager => file_manager.Sound disk table)
      (expectedAnswer disk table) sessions pool) (hcalm : pool.clashed = false)
    (hc : pool.TlsPermitted event) (hapart : pool.CallsApart event)
    (hs : poolStep disk overlapped kept pool event = some pool') :
    Threadpool.Answered (fun file_manager => file_manager.Sound disk table)
      (expectedAnswer disk table) sessions pool' ∧ pool'.clashed = false := by
  have hs := (Threadpool.step_of_eq hs).2
  exact ⟨h.step (determined_handle hshort) (Threadpool.handler_eq _ hcalm) hc hs,
    Threadpool.clashed_of_step hapart hcalm hs⟩

theorem Serving.step (h : Serving disk table sessions s)
    (hshort : ∀ str response, expectedAnswer disk table str = some response →
      response.length < 2 ^ 31)
    (hc : s.Permitted event ∧ s.CallsApart event)
    (hs : Step disk overlapped kept s event t) : Serving disk table sessions t := by
  cases hs with
  | loop event server hs hn =>
    refine ⟨h.answered, h.calm, ?_, ?_⟩
    · cases hs with
      | stop hp => exact False.elim
      | goOn hp => exact False.elim
      | acceptError hp errno => exact False.elim
      | accept hp he fd => exact fun _ => hc.1.1 fd rfl
      | drop hp he fd => exact False.elim
      | create hp ssl => exact fun _ => h.fresh_fd (hp ▸ trivial)
      | handshake hp ret => exact fun _ => h.fresh_fd (hp ▸ trivial)
      | readAgain hp numbytes bytes => exact h.fresh_fd
      | readError hp numbytes bytes err he hneg => exact False.elim
      | handOver hp numbytes bytes err he hpos hb => exact False.elim
    · cases hs with
      | stop hp => exact False.elim
      | goOn hp => exact False.elim
      | acceptError hp errno => exact False.elim
      | accept hp he fd => exact False.elim
      | drop hp he fd => exact False.elim
      | create hp ssl =>
        rintro - ssl' rfl
        exact hc.1.2 ssl' rfl
      | handshake hp ret => exact fun _ => h.fresh_ssl (hp ▸ trivial)
      | readAgain hp numbytes bytes => exact h.fresh_ssl
      | readError hp numbytes bytes err he hneg => exact False.elim
      | handOver hp numbytes bytes err he hpos hb => exact False.elim
  | handOver numbytes bytes err server pool hp he hn hserver hssl hpc hpool =>
    have hperm : s.pool.TlsPermitted
        (.addTask ⟨s.server.client_fd, s.server.ssl, bytes.takeWhile (· ≠ 0)⟩) := by
      refine ⟨trivial, ?_⟩
      rintro _ ⟨⟩
      exact ⟨h.fresh_fd (hp ▸ trivial), h.fresh_ssl (hp ▸ trivial)⟩
    obtain ⟨hanswered, hcalm⟩ := answered_poolStep hshort h.answered h.calm hperm
      (fun _ _ he => by cases he) hpool
    refine ⟨hanswered, hcalm, fun ht => ?_, fun ht => ?_⟩
    · exact absurd (hpc ▸ ht : Taken .loop) id
    · exact absurd (hpc ▸ ht : Created .loop) id
  | pool event pool hn hpool =>
    have hperm : s.pool.TlsPermitted event := ⟨hc.1, fun obj he => absurd he (hn obj)⟩
    obtain ⟨htasks, hpeer⟩ := pool_frame hn hpool
    obtain ⟨hanswered, hcalm⟩ := answered_poolStep hshort h.answered h.calm hperm hc.2 hpool
    refine ⟨hanswered, hcalm, fun ht => hpeer _ (h.fresh_fd ht), ?_⟩
    rw [htasks]
    exact h.fresh_ssl

theorem serving_of_run {events : List (Event num_threads)}
    (hshort : ∀ str response, expectedAnswer disk table str = some response →
      response.length < 2 ^ 31)
    (hc : StepsMeet (fun s event => s.Permitted event ∧ s.CallsApart event)
      (step disk overlapped kept) (new num_threads errno (FileManager.fresh table) sessions) events)
    (hr : run (step disk overlapped kept)
      (new num_threads errno (FileManager.fresh table) sessions) events = some s) :
    Serving disk table sessions s :=
  run_invariant (fun _ _ _ h hc hs => h.step hshort hc (step_of_eq hs))
    ⟨Threadpool.answered_new _ (FileManager.sound_fresh disk table) sessions, rfl, False.elim,
      False.elim⟩ hc hr

end Runs

/-! ## One connection -/

section Visit

variable {disk : Disk} {overlapped : Bytes → FileManager → Outcome (Option Bytes) × FileManager}
  {kept : Bool} {s : TlsService num_threads} {bytes response : Bytes} {file_manager : FileManager}

theorem step_handOver {err : TlsServer.SslError} (hterm : s.pool.terminated = false)
    (hpush : s.pool.queue.pusher = .idle) (hp : s.server.pc = .reading)
    (hb : bytes.length ≤ MAXBUFLEN - 1) (he : err ≠ .WANT_READ) :
    step disk overlapped kept s (.accept (.wolfSSL_read bytes.length bytes err)) =
      some ⟨{ s.server with
          toLoop := s.server.addTask
            ⟨s.server.client_fd, s.server.ssl, bytes.takeWhile (· ≠ 0)⟩
          buf := readInto s.server.buf bytes
          pc := .loop },
        { s.pool with
          tasks := s.pool.tasks ++
            [⟨s.server.client_fd, s.server.ssl, bytes.takeWhile (· ≠ 0)⟩]
          queue := SharedQueue.stepPush s.pool.queue
          world := Threadpool.connect s.pool.tasks.length
            ⟨s.server.client_fd, s.server.ssl, bytes.takeWhile (· ≠ 0)⟩ s.pool.world }⟩ := by
  have ha : TlsServer.acceptIncoming s.server (.wolfSSL_read bytes.length bytes err) =
      some { s.server with
        toLoop := s.server.addTask ⟨s.server.client_fd, s.server.ssl, bytes.takeWhile (· ≠ 0)⟩
        buf := readInto s.server.buf bytes
        pc := .loop } := by
    unfold TlsServer.acceptIncoming
    rw [hp]
    dsimp only
    rw [if_pos ⟨rfl, hb⟩, if_neg he, if_neg (by omega : ¬ (bytes.length : Int) < 0), Int.toNat_natCast,
      requestStr_readInto]
  have hstep : step disk overlapped kept s (.accept (.wolfSSL_read bytes.length bytes err)) =
      s.accept disk overlapped kept (.wolfSSL_read bytes.length bytes err) := by
    dsimp only [step]
    rw [hterm, hpush]
  rw [hstep, accept, ha, Option.bind_eq_bind, Option.bind_some]
  dsimp only [Loop.addTask]
  rw [addedTask_addTask]
  dsimp only
  rw [poolStep, Threadpool.step_addTask hterm hpush, Option.bind_eq_bind, Option.bind_some]
  rfl

theorem step_pool {pool : Threadpool HTTPSConnectionObject (FileManager × TlsNetwork) TlsCall
      num_threads} {i : Fin num_threads}
    (h : poolStep disk overlapped kept s.pool (.work i) = some pool) :
    step disk overlapped kept s (.pool (.work i)) = some ⟨s.server, pool⟩ :=
  Option.map_eq_some_iff.mpr ⟨pool, h, rfl⟩

/-- A connection is accepted and read; the last worker pops it, answers and closes. -/
def readOnce (bytes : Bytes) : List (Event 4) :=
  [.accept (.stop_requested false), .accept (.accept4 (.ok 5)), .accept (.wolfSSL_new (some 7)),
    .accept (.wolfSSL_accept 1), .accept (.wolfSSL_read bytes.length bytes (.other 0))] ++
    List.replicate 3 (.pool .push) ++ List.replicate 5 (.pool (.pop (Fin.last 3) false)) ++
    List.replicate 6 (.pool (.work (Fin.last 3)))

theorem readOnce_runs (overlapped : Bytes → FileManager → Outcome (Option Bytes) × FileManager)
    (hb : bytes.length ≤ MAXBUFLEN - 1)
    (hh : (handle disk (bytes.takeWhile (· ≠ 0)) file_manager).1 = ret (some response))
    (sessions : Nat → TlsSession) : ∃ s,
    (StepsMeet (fun s event => s.Permitted event ∧ s.CallsApart event)
        (step disk overlapped false) (new 4 (.other 0) file_manager sessions) (readOnce bytes) ∧
      run (step disk overlapped false) (new 4 (.other 0) file_manager sessions) (readOnce bytes) =
        some s) ∧
    s.pool.Drained := by
  have hpop {s : TlsService 4} (h : ∀ head, s.pool.queue.pops (Fin.last 3) = .checked head →
      s.pool.queue.queue.empty = false) : s.Permitted (.pool (.pop (Fin.last 3) false)) ∧
        s.CallsApart (.pool (.pop (Fin.last 3) false)) :=
    ⟨fun head hp _ _ => h head hp, nofun⟩
  have hwork {s : TlsService 4} (h : s.pool.calling = false) :
      s.Permitted (.pool (.work (Fin.last 3))) ∧ s.CallsApart (.pool (.work (Fin.last 3))) :=
    ⟨trivial, fun _ _ _ _ => h⟩
  have hbusy {s : TlsService 4} (h : ∀ task, s.pool.workers (Fin.last 3) ≠ .popped task) :
      s.Permitted (.pool (.work (Fin.last 3))) ∧ s.CallsApart (.pool (.work (Fin.last 3))) :=
    ⟨trivial, Threadpool.callsApart_of_busy h⟩
  have hhandle : (tlsCallPolicies (handle disk) overlapped).handle (bytes.takeWhile (· ≠ 0))
      (Threadpool.connect 0 ⟨5, some 7, bytes.takeWhile (· ≠ 0)⟩
        (file_manager, { sessions := sessions })) =
      (ret (some response), (handle disk (bytes.takeWhile (· ≠ 0)) file_manager).2,
        (Threadpool.connect 0 ⟨5, some 7, bytes.takeWhile (· ≠ 0)⟩
          (file_manager, { sessions := sessions })).2) := by
    rw [← hh]
    rfl
  refine ⟨_, meets_run_cons ⟨⟨nofun, nofun⟩, trivial⟩ rfl
    (meets_run_cons ⟨⟨fun _ _ => rfl, nofun⟩, trivial⟩ rfl
    (meets_run_cons ⟨⟨nofun, fun _ _ _ _ => nofun⟩, trivial⟩ rfl
    (meets_run_cons ⟨⟨nofun, nofun⟩, trivial⟩ rfl
    (meets_run_cons ⟨⟨nofun, nofun⟩, trivial⟩ (step_handOver rfl rfl rfl hb nofun)
    (meets_run_cons ⟨⟨fun _ _ _ => nofun, nofun⟩, nofun⟩ rfl
    (meets_run_cons ⟨⟨nofun, fun _ _ _ => rfl⟩, nofun⟩ rfl
    (meets_run_cons ⟨⟨nofun, nofun⟩, nofun⟩ rfl (meets_run_cons (hpop nofun) rfl
    (meets_run_cons (hpop nofun) rfl (meets_run_cons (hpop fun _ _ => rfl) rfl
    (meets_run_cons (hpop nofun) rfl (meets_run_cons (hpop nofun) rfl
    (meets_run_cons (hwork rfl) rfl
    (meets_run_cons (hbusy nofun) (step_pool (Threadpool.step_answer rfl rfl rfl hhandle))
    (meets_run_cons (hbusy nofun) rfl (meets_run_cons (hbusy nofun) rfl
    (meets_run_cons (hbusy nofun) rfl (meets_run_cons (hbusy nofun) rfl
    ⟨trivial, rfl⟩)))))))))))))))))),
    rfl, rfl, rfl, ?_, ?_⟩
  · intro i
    fin_cases i <;> exact trivial
  · intro i
    fin_cases i <;> rfl

end Visit

end TlsService

end SimpleServ.Server
