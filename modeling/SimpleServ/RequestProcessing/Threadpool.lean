import SimpleServ.RequestProcessing.TcpConnection
import SimpleServ.Utility.QueueLedger

/-
  `Threadpool` (threadpool.hpp): its queue, its workers, and the thread that adds tasks.

  The steps of `add_task`, of the workers' pops and of `handle_connection` interleave in any
  order. The queue is that of SharedQueue: its element `k` is the `k`-th task, and a worker
  whose pop returns `k` goes on with that connection object. `arrive` is what the system does
  when it gives the connection to the acceptor.

  A call of the handler begins in one step and comes back in another one. Nothing keeps two
  workers from being in the handler at once, and what it works on has no lock: once two calls
  have overlapped, a call gives what `overlapped` says, which may be anything. Each call that
  the sender and the closer make is one step. An exception leaves its thread, and the process
  ends (`std::terminate`), as it does by a signal. `add_connection` does not compile and is
  left out.

  `pool_conserves`: in a run in which every step of the queue is orderly each connection that
  was added is at one place, and the handler is called for it at most once.
-/

namespace SimpleServ.RequestProcessing

open SimpleServ.Cxx SimpleServ.Lib SimpleServ.Server SimpleServ.Utility
  SimpleServ.Utility.SharedQueue Outcome

/-- Template parameters whose closer makes the calls `firstCall`, `laterCalls`, in this order;
    `overlapped` is the handler where its calls have overlapped. -/
structure CallPolicies (C W K : Type) extends Policies C W where
  overlapped : Bytes → W → Outcome (Option Bytes) × W
  firstCall : K
  laterCalls : List K
  call : K → C → W → W
  closeConnection_eq : ∀ conn_obj world, closeConnection conn_obj world =
    (firstCall :: laterCalls).foldl (fun world k => call k conn_obj world) world

/-- Those of the pool in a `TCPServer`. -/
def tcpCallPolicies {H : Type} (handle overlapped : Bytes → H → Outcome (Option Bytes) × H) :
    CallPolicies HTTPConnectionObject (H × Network) Unit where
  toPolicies := tcpPolicies handle
  overlapped := (tcpPolicies overlapped).handle
  firstCall := ()
  laterCalls := []
  call := fun _ conn_obj world => (tcpPolicies handle).closeConnection conn_obj world
  closeConnection_eq := fun _ _ => rfl

/-- A connection object, and the number of the call of `add_task` that brought it. -/
structure Task (C : Type) where
  number : Nat
  obj : C
  deriving DecidableEq, Repr

/-- Where a worker is in the loop of `Start`. -/
inductive WorkerPc (C K : Type) where
  | popping
  /-- Before the call of the handler. -/
  | popped (task : Task C)
  /-- In the handler. -/
  | handling (task : Task C)
  /-- Before `SendMsg`. -/
  | answered (task : Task C) (response : Bytes)
  /-- Before `call`; `rest` are the calls of the closer behind it. -/
  | closing (task : Task C) (call : K) (rest : List K)
  /-- After an exception. -/
  | ended

/-- The task that the worker is busy with. -/
def WorkerPc.task {C K : Type} : WorkerPc C K → Option (Task C)
  | .popped task | .handling task | .answered task _ | .closing task _ _ => some task
  | .popping | .ended => none

/-- The task for which the worker has called the handler. -/
def WorkerPc.begun {C K : Type} : WorkerPc C K → Option (Task C)
  | .handling task | .answered task _ | .closing task _ _ => some task
  | .popping | .popped _ | .ended => none

/-- The task for which this call has come back. -/
def WorkerPc.handled {C K : Type} : WorkerPc C K → Option (Task C)
  | .answered task _ | .closing task _ _ => some task
  | .popping | .popped _ | .handling _ | .ended => none

def WorkerPc.inHandler {C K : Type} : WorkerPc C K → Bool
  | .handling _ => true
  | .popping | .popped _ | .answered _ _ | .closing _ _ _ | .ended => false

/-- `started` lists the tasks in the order in which the handler was called for them, `handled`
    in the order in which these calls ended, and `closed` in the order in which the closer was
    done with them; `clashed` says that two calls of the handler have overlapped. -/
structure Threadpool (C W K : Type) (num_threads : Nat) where
  tasks : List C := []
  queue : SharedQueue.State (Fin num_threads) 100
  workers : Fin num_threads → WorkerPc C K
  world : W
  terminated : Bool := false
  clashed : Bool := false
  started : List Nat := []
  handled : List Nat := []
  closed : List Nat := []

namespace Threadpool

/-- `addTask` begins a call of `add_task`, `push` goes on with it. -/
inductive Event (C : Type) (num_threads : Nat) where
  | addTask (obj : C)
  | push
  | pop (i : Fin num_threads) (spurious : Bool)
  | work (i : Fin num_threads)

section Model

variable {C W K : Type} {num_threads : Nat}

/-- The constructor starts every worker on the empty queue. -/
def new (C K : Type) {W : Type} (num_threads : Nat) (world : W) : Threadpool C W K num_threads where
  queue := SharedQueue.init (Fin num_threads) (by decide)
  workers := fun _ => .popping
  world := world

def goTo (s : Threadpool C W K num_threads) (i : Fin num_threads) (pc : WorkerPc C K) :
    Threadpool C W K num_threads := { s with workers := Function.update s.workers i pc }

def addTask (arrive : Nat → C → W → W) (s : Threadpool C W K num_threads) (obj : C) :
    Option (Threadpool C W K num_threads) :=
  match s.queue.pusher with
  | .idle => some { s with
      tasks := s.tasks ++ [obj]
      queue := stepPush s.queue
      world := arrive s.tasks.length obj s.world }
  | _ => none

def push (s : Threadpool C W K num_threads) : Option (Threadpool C W K num_threads) :=
  match s.queue.pusher with
  | .idle => none
  | _ => some { s with queue := stepPush s.queue }

/-- The next step of the worker's pop. One that comes back with a slot that nothing was in is
    not followed any further. -/
def pop (kept : Bool) (s : Threadpool C W K num_threads) (i : Fin num_threads) (spurious : Bool) :
    Option (Threadpool C W K num_threads) :=
  let queue := stepPop kept s.queue i spurious
  match s.workers i with
  | .popping =>
    match s.queue.pops i with
    | .taken none => none
    | .taken (some k) =>
      match s.tasks[k]? with
      | some obj => some { s.goTo i (.popped ⟨k, obj⟩) with queue := queue }
      | none => none
    | _ => some { s with queue := queue }
  | _ => none

/-- Some worker is in the handler. -/
def calling (s : Threadpool C W K num_threads) : Bool :=
  (List.finRange num_threads).any fun i => (s.workers i).inHandler

/-- What the handler is now. -/
def handler (policies : CallPolicies C W K) (s : Threadpool C W K num_threads) :
    Bytes → W → Outcome (Option Bytes) × W :=
  if s.clashed then policies.overlapped else policies.handle

/-- The next step of the worker in `handle_connection`. -/
def work (policies : CallPolicies C W K) (s : Threadpool C W K num_threads) (i : Fin num_threads) :
    Option (Threadpool C W K num_threads) :=
  match s.workers i with
  | .popped task =>
    some { s.goTo i (.handling task) with
      started := s.started ++ [task.number], clashed := s.clashed || s.calling }
  | .handling task =>
    let handled := s.handled ++ [task.number]
    match s.handler policies (policies.request task.obj) s.world with
    | (ret (some response), world) =>
      some { s.goTo i (.answered task response) with world := world, handled := handled }
    | (ret none, world) =>
      some { s.goTo i (.closing task policies.firstCall policies.laterCalls) with
        world := world, handled := handled }
    | (_, world) =>
      some { s.goTo i .ended with world := world, handled := handled, terminated := true }
  | .answered task response =>
    match policies.sendMsg task.obj response s.world with
    | (ret (), world) =>
      some { s.goTo i (.closing task policies.firstCall policies.laterCalls) with world := world }
    | (_, world) => some { s.goTo i .ended with world := world, terminated := true }
  | .closing task call [] =>
    some { s.goTo i .popping with
      world := policies.call call task.obj s.world, closed := s.closed ++ [task.number] }
  | .closing task call (next :: rest) =>
    some { s.goTo i (.closing task next rest) with world := policies.call call task.obj s.world }
  | .popping | .ended => none

def step (policies : CallPolicies C W K) (arrive : Nat → C → W → W) (kept : Bool)
    (s : Threadpool C W K num_threads) (event : Event C num_threads) :
    Option (Threadpool C W K num_threads) :=
  if s.terminated then none
  else match event with
    | .addTask obj => s.addTask arrive obj
    | .push => s.push
    | .pop i spurious => s.pop kept i spurious
    | .work i => s.work policies i

/-- The step of the queue in the event, if there is one, is orderly. -/
def QueueOrderly (s : Threadpool C W K num_threads) : Event C num_threads → Prop
  | .push => Orderly s.queue .push
  | .pop i spurious => Timely s.queue (.pop i spurious)
  | .addTask _ | .work _ => True

/-- The step of the queue is orderly, and no connection comes with the key of an open one. -/
def Permitted {D : Type} (key : C → D) (s : Threadpool C W K num_threads)
    (event : Event C num_threads) : Prop :=
  s.QueueOrderly event ∧ ∀ obj, event = .addTask obj → ∀ k obj', s.tasks[k]? = some obj' →
    key obj' = key obj → k ∈ s.closed

/-- No call of the handler begins while another one is in progress. -/
def CallsApart (s : Threadpool C W K num_threads) (event : Event C num_threads) : Prop :=
  ∀ i task, event = .work i → s.workers i = .popped task → s.calling = false

/-- Nothing waits and nobody is busy. -/
structure Drained (s : Threadpool C W K num_threads) : Prop where
  goesOn : s.terminated = false
  pusher_idle : s.queue.pusher = .idle
  empty : s.queue.queue.empty = true
  pops_away : ∀ i, Away (s.queue.pops i)
  popping : ∀ i, s.workers i = .popping

end Model

/-! ## The kinds of steps -/

section Steps

variable {C W K : Type} {num_threads : Nat} {policies : CallPolicies C W K}
  {arrive : Nat → C → W → W} {kept : Bool} {s t : Threadpool C W K num_threads}
  {event : Event C num_threads} {i : Fin num_threads} {spurious : Bool}

/-- The kinds of steps of a worker in `handle_connection`. -/
inductive Work (policies : CallPolicies C W K) (s : Threadpool C W K num_threads)
    (i : Fin num_threads) : Threadpool C W K num_threads → Prop where
  | begin (task : Task C) (hw : s.workers i = .popped task) :
    Work policies s i { s.goTo i (.handling task) with
      started := s.started ++ [task.number], clashed := s.clashed || s.calling }
  | answer (task : Task C) (response : Bytes) (world : W) (hw : s.workers i = .handling task)
      (hh : s.handler policies (policies.request task.obj) s.world =
        (ret (some response), world)) :
    Work policies s i { s.goTo i (.answered task response) with
      world := world, handled := s.handled ++ [task.number] }
  | refuse (task : Task C) (world : W) (hw : s.workers i = .handling task)
      (hh : s.handler policies (policies.request task.obj) s.world = (ret none, world)) :
    Work policies s i { s.goTo i (.closing task policies.firstCall policies.laterCalls) with
      world := world, handled := s.handled ++ [task.number] }
  | fail (task : Task C) (hw : s.workers i = .handling task)
      (hh : ¬ (s.handler policies (policies.request task.obj) s.world).1.Returns) :
    Work policies s i { s.goTo i .ended with
      world := (s.handler policies (policies.request task.obj) s.world).2
      handled := s.handled ++ [task.number]
      terminated := true }
  | send (task : Task C) (response : Bytes) (hw : s.workers i = .answered task response)
      (hs : (policies.sendMsg task.obj response s.world).1 = ret ()) :
    Work policies s i { s.goTo i (.closing task policies.firstCall policies.laterCalls) with
      world := (policies.sendMsg task.obj response s.world).2 }
  | sendFail (task : Task C) (response : Bytes) (hw : s.workers i = .answered task response)
      (hs : ¬ (policies.sendMsg task.obj response s.world).1.Returns) :
    Work policies s i { s.goTo i .ended with
      world := (policies.sendMsg task.obj response s.world).2, terminated := true }
  | close (task : Task C) (call : K) (hw : s.workers i = .closing task call []) :
    Work policies s i { s.goTo i .popping with
      world := policies.call call task.obj s.world, closed := s.closed ++ [task.number] }
  | closeOn (task : Task C) (call next : K) (rest : List K)
      (hw : s.workers i = .closing task call (next :: rest)) :
    Work policies s i { s.goTo i (.closing task next rest) with
      world := policies.call call task.obj s.world }

/-- The kinds of steps of the pool. -/
inductive Step (policies : CallPolicies C W K) (arrive : Nat → C → W → W) (kept : Bool)
    (s : Threadpool C W K num_threads) : Event C num_threads → Threadpool C W K num_threads → Prop where
  | addTask (obj : C) (hp : s.queue.pusher = .idle) :
    Step policies arrive kept s (.addTask obj) { s with
      tasks := s.tasks ++ [obj]
      queue := stepPush s.queue
      world := arrive s.tasks.length obj s.world }
  | push (hp : s.queue.pusher ≠ .idle) :
    Step policies arrive kept s .push { s with queue := stepPush s.queue }
  | poll (i : Fin num_threads) (spurious : Bool) (hw : s.workers i = .popping)
      (hp : ∀ result, s.queue.pops i ≠ .taken result) :
    Step policies arrive kept s (.pop i spurious) { s with
      queue := stepPop kept s.queue i spurious }
  | receive (i : Fin num_threads) (spurious : Bool) (task : Task C) (hw : s.workers i = .popping)
      (hp : s.queue.pops i = .taken (some task.number))
      (ht : s.tasks[task.number]? = some task.obj) :
    Step policies arrive kept s (.pop i spurious) { s.goTo i (.popped task) with
      queue := stepPop kept s.queue i spurious }
  | work (i : Fin num_threads) (t : Threadpool C W K num_threads) (h : Work policies s i t) :
    Step policies arrive kept s (.work i) t

theorem work_of_eq (h : s.work policies i = some t) : Work policies s i t := by
  unfold work at h
  split at h
  · next task hw =>
    cases h
    exact .begin task hw
  · next task hw =>
    dsimp only at h
    split at h
    · next response world hh =>
      cases h
      exact .answer task response world hw hh
    · next world hh =>
      cases h
      exact .refuse task world hw hh
    · next outcome world hsome hnone hh =>
      cases h
      have hr : ¬ (s.handler policies (policies.request task.obj) s.world).1.Returns := by
        rintro ⟨answer, ha⟩
        rw [hh] at ha
        subst ha
        cases answer with
        | none => exact hnone rfl
        | some response => exact hsome response rfl
      have hf := Work.fail task hw hr
      rwa [hh] at hf
  · next task response hw =>
    split at h
    · next world hs =>
      cases h
      have hsend := Work.send task response hw (congrArg Prod.fst hs)
      rwa [hs] at hsend
    · next outcome world hret hs =>
      cases h
      have hr : ¬ (policies.sendMsg task.obj response s.world).1.Returns := by
        rintro ⟨_, ha⟩
        rw [hs] at ha
        exact hret ha
      have hf := Work.sendFail task response hw hr
      rwa [hs] at hf
  · next task call hw =>
    cases h
    exact .close task call hw
  · next task call next rest hw =>
    cases h
    exact .closeOn task call next rest hw
  · cases h
  · cases h

theorem step_addTask {obj : C} (hterm : s.terminated = false) (hp : s.queue.pusher = .idle) :
    step policies arrive kept s (.addTask obj) = some { s with
      tasks := s.tasks ++ [obj]
      queue := stepPush s.queue
      world := arrive s.tasks.length obj s.world } := by
  simp [step, addTask, hterm, hp]

/-- Where no calls overlap, the handler is the one of the template parameters. -/
theorem handler_eq (policies : CallPolicies C W K) (h : s.clashed = false) :
    s.handler policies = policies.handle := by
  rw [handler, h, if_neg Bool.false_ne_true]

theorem step_answer {task : Task C} {response : Bytes} {world : W} (hterm : s.terminated = false)
    (hclash : s.clashed = false) (hw : s.workers i = .handling task)
    (hh : policies.handle (policies.request task.obj) s.world = (ret (some response), world)) :
    step policies arrive kept s (.work i) = some { s.goTo i (.answered task response) with
      world := world, handled := s.handled ++ [task.number] } := by
  simp [step, hterm, work, hw, handler_eq policies hclash, hh]

theorem step_send {task : Task C} {response : Bytes} (hterm : s.terminated = false)
    (hw : s.workers i = .answered task response)
    (hs : (policies.sendMsg task.obj response s.world).1 = ret ()) :
    step policies arrive kept s (.work i) = some { s.goTo i
      (.closing task policies.firstCall policies.laterCalls) with
      world := (policies.sendMsg task.obj response s.world).2 } := by
  have hsend : policies.sendMsg task.obj response s.world =
      (ret (), (policies.sendMsg task.obj response s.world).2) := Prod.ext hs rfl
  simp only [step, hterm, work, hw, Bool.false_eq_true, if_false]
  rw [hsend]

theorem step_of_eq (h : step policies arrive kept s event = some t) :
    s.terminated = false ∧ Step policies arrive kept s event t := by
  unfold step at h
  split at h
  · cases h
  · next hterm =>
    rw [Bool.not_eq_true] at hterm
    refine ⟨hterm, ?_⟩
    cases event with
    | addTask obj =>
      dsimp only [addTask] at h
      split at h
      · next hp =>
        cases h
        exact .addTask obj hp
      · cases h
    | push =>
      dsimp only [push] at h
      split at h
      · cases h
      · next hp =>
        cases h
        exact .push hp
    | pop i spurious =>
      dsimp only [pop] at h
      split at h
      · next hw =>
        split at h
        · cases h
        · next k hp =>
          split at h
          · next obj ht =>
            cases h
            exact .receive i spurious ⟨k, obj⟩ hw hp ht
          · cases h
        · next hnone hsome =>
          cases h
          refine .poll i spurious hw fun result hr => ?_
          cases result with
          | none => exact hnone hr
          | some k => exact hsome k hr
      · cases h
    | work i => exact .work i t (work_of_eq h)

/-- Only a worker with a connection that it has just popped begins a call. -/
theorem callsApart_of_busy (h : ∀ task, s.workers i ≠ .popped task) : s.CallsApart (.work i) := by
  intro j task he hw
  obtain rfl := Event.work.inj he
  exact absurd hw (h task)

theorem clashed_of_step (hc : s.CallsApart event) (h : s.clashed = false)
    (hs : Step policies arrive kept s event t) : t.clashed = false := by
  cases hs with
  | addTask obj hp => exact h
  | push hp => exact h
  | poll i spurious hw hp => exact h
  | receive i spurious task hw hp ht => exact h
  | work i t hs =>
    cases hs with
    | begin task hw =>
      show (s.clashed || s.calling) = false
      rw [h, hc i task rfl hw]
      rfl
    | answer task response world hw hh => exact h
    | refuse task world hw hh => exact h
    | fail task hw hh => exact h
    | send task response hw hs => exact h
    | sendFail task response hw hs => exact h
    | close task call hw => exact h
    | closeOn task call next rest hw => exact h

end Steps

/-! ## Where each task is -/

section Tasks

variable {C W K : Type} {num_threads : Nat} {policies : CallPolicies C W K}
  {arrive : Nat → C → W → W} {kept : Bool} {s t : Threadpool C W K num_threads}
  {event : Event C num_threads} {i j : Fin num_threads} {spurious : Bool}

/-- How many tasks a call of `add_task` in progress has brought and not stored yet. -/
def underway : PushPc 100 → Nat
  | .loaded _ | .written _ => 1
  | .idle | .stored => 0

/-- The element that the pop has claimed and not returned. -/
def held (queue : SharedQueue.State (Fin num_threads) 100) (i : Fin num_threads) : Option Nat :=
  match queue.pops i with
  | .claimed head => slot queue.queue head
  | .taken result => result
  | .idle | .loaded _ | .checked _ => none

/-- The tasks that no pop has claimed. -/
def waiting (s : Threadpool C W K num_threads) : List Nat :=
  List.range' s.queue.claimed (s.tasks.length - s.queue.claimed)

/-- The tasks that pops have claimed and not returned. -/
def withPops (s : Threadpool C W K num_threads) : List Nat :=
  (List.finRange num_threads).filterMap (held s.queue)

/-- The tasks that workers are busy with. -/
def inHand (s : Threadpool C W K num_threads) : List Nat :=
  (List.finRange num_threads).filterMap fun i => (s.workers i).task.map Task.number

/-- The record of the workers and of what they have done fits the record of the queue. -/
structure Tracks (s : Threadpool C W K num_threads) : Prop where
  ledger : Ledger s.queue
  added : s.tasks.length = s.queue.stored + underway s.queue.pusher
  busy_pop : ∀ i, s.workers i ≠ .popping → Away (s.queue.pops i)
  task_handed : ∀ i task, (s.workers i).task = some task → task.number ∈ s.queue.handed
  task_obj : ∀ i task, (s.workers i).task = some task → s.tasks[task.number]? = some task.obj
  task_open : ∀ i task, (s.workers i).task = some task → task.number ∉ s.closed
  task_unique : ∀ i j task task', (s.workers i).task = some task →
    (s.workers j).task = some task' → task.number = task'.number → i = j
  handed_cases : s.terminated = false → ∀ k ∈ s.queue.handed, k ∈ s.closed ∨
    ∃ i task, (s.workers i).task = some task ∧ task.number = k
  popped_new : ∀ i task, s.workers i = .popped task → task.number ∉ s.started
  begun_started : ∀ i task, (s.workers i).begun = some task → task.number ∈ s.started
  started_handed : ∀ k ∈ s.started, k ∈ s.queue.handed
  started_nodup : s.started.Nodup
  closed_started : ∀ k ∈ s.closed, k ∈ s.started
  closed_nodup : s.closed.Nodup

theorem WorkerPc.task_of_begun {pc : WorkerPc C K} {task : Task C} (h : pc.begun = some task) :
    pc.task = some task := by
  cases pc with
  | popping => cases h
  | popped _ => cases h
  | handling _ => exact h
  | answered _ _ => exact h
  | closing _ _ _ => exact h
  | ended => cases h

theorem tracks_new (world : W) : Tracks (new C K num_threads world) where
  ledger := ledger_init _ _
  added := rfl
  busy_pop := fun _ h => absurd rfl h
  task_handed := nofun
  task_obj := nofun
  task_open := nofun
  task_unique := nofun
  handed_cases := nofun
  popped_new := nofun
  begun_started := nofun
  started_handed := nofun
  started_nodup := List.nodup_nil
  closed_started := nofun
  closed_nodup := List.nodup_nil

/-! ## One step -/

theorem goTo_self (s : Threadpool C W K num_threads) (i : Fin num_threads) (pc : WorkerPc C K) :
    (s.goTo i pc).workers i = pc := Function.update_self _ _ _

theorem goTo_ne (s : Threadpool C W K num_threads) (hj : j ≠ i) (pc : WorkerPc C K) :
    (s.goTo i pc).workers j = s.workers j := Function.update_of_ne hj _ _

/-- A worker that is busy after a step of `i` is `i`, or was busy before. -/
theorem task_goTo {pc : WorkerPc C K} {task : Task C}
    (h : ((s.goTo i pc).workers j).task = some task) :
    (j = i ∧ pc.task = some task) ∨ (j ≠ i ∧ (s.workers j).task = some task) := by
  by_cases hji : j = i
  · subst hji
    rw [goTo_self] at h
    exact .inl ⟨rfl, h⟩
  · rw [goTo_ne s hji] at h
    exact .inr ⟨hji, h⟩

/-- A step of `i` that stays with its task. -/
theorem task_goTo_eq {pc : WorkerPc C K} (h : pc.task = (s.workers i).task)
    (j : Fin num_threads) : ((s.goTo i pc).workers j).task = (s.workers j).task := by
  by_cases hji : j = i
  · subst hji
    rw [goTo_self, h]
  · rw [goTo_ne s hji]

/-- A step of the queue that hands nothing out. -/
theorem Tracks.queueStep (h : Tracks s) (hl : Ledger t.queue)
    (hadd : t.tasks.length = t.queue.stored + underway t.queue.pusher)
    (hpops : ∀ i, s.workers i ≠ .popping → t.queue.pops i = s.queue.pops i)
    (hh : t.queue.handed = s.queue.handed) (hw : t.workers = s.workers)
    (htasks : ∀ (k : Nat) (obj : C), s.tasks[k]? = some obj → t.tasks[k]? = some obj)
    (hterm : t.terminated = s.terminated) (hs : t.started = s.started)
    (hc : t.closed = s.closed) : Tracks t where
  ledger := hl
  added := hadd
  busy_pop := by
    intro i hi
    rw [hw] at hi
    rw [hpops i hi]
    exact h.busy_pop i hi
  task_handed := by
    rw [hw, hh]
    exact h.task_handed
  task_obj := by
    rw [hw]
    exact fun i task ht => htasks _ _ (h.task_obj i task ht)
  task_open := by
    rw [hw, hc]
    exact h.task_open
  task_unique := by
    rw [hw]
    exact h.task_unique
  handed_cases := by
    rw [hterm, hh, hc, hw]
    exact h.handed_cases
  popped_new := by
    rw [hw, hs]
    exact h.popped_new
  begun_started := by
    rw [hw, hs]
    exact h.begun_started
  started_handed := by
    rw [hs, hh]
    exact h.started_handed
  started_nodup := hs ▸ h.started_nodup
  closed_started := by
    rw [hc, hs]
    exact h.closed_started
  closed_nodup := hc ▸ h.closed_nodup

theorem underway_stepPush {queue : SharedQueue.State (Fin num_threads) 100}
    (hp : queue.pusher ≠ .idle) :
    queue.stored + underway queue.pusher =
      (stepPush queue).stored + underway (stepPush queue).pusher := by
  unfold stepPush
  cases h : queue.pusher with
  | idle => exact absurd h hp
  | loaded tail => rfl
  | written tail => rfl
  | stored => rfl

theorem Tracks.addTask (h : Tracks s) (arrive : Nat → C → W → W) (obj : C)
    (hp : s.queue.pusher = .idle) :
    Tracks { s with
      tasks := s.tasks ++ [obj]
      queue := stepPush s.queue
      world := arrive s.tasks.length obj s.world } := by
  obtain ⟨-, hhanded, hpops⟩ := stepPush_pops s.queue
  have hpush : stepPush s.queue =
      { s.queue with pusher := .loaded ⟨s.queue.queue.tail_, s.queue.queue.tail_lt⟩ } := by
    unfold stepPush
    rw [hp]
  have horder : Orderly s.queue .push := by
    refine ⟨fun tail ht => ?_, fun _ tail ht => ?_⟩
    · cases hp.symm.trans ht
    · cases hp.symm.trans ht
  refine h.queueStep (h.ledger.push horder) ?_ (fun i _ => congrFun hpops i) hhanded rfl ?_
    rfl rfl rfl
  · have hadd := h.added
    rw [hp] at hadd
    show (s.tasks ++ [obj]).length = (stepPush s.queue).stored + underway (stepPush s.queue).pusher
    rw [List.length_append, List.length_singleton, hadd, hpush]
    rfl
  · intro k obj' hk
    obtain ⟨hlt, -⟩ := List.getElem?_eq_some_iff.mp hk
    exact (List.getElem?_append_left hlt).trans hk

theorem Tracks.push (h : Tracks s) (hc : Orderly s.queue .push) (hp : s.queue.pusher ≠ .idle) :
    Tracks { s with queue := stepPush s.queue } := by
  obtain ⟨-, hhanded, hpops⟩ := stepPush_pops s.queue
  exact h.queueStep (h.ledger.push hc) (h.added.trans (underway_stepPush hp))
    (fun i _ => congrFun hpops i) hhanded rfl (fun _ _ hk => hk) rfl rfl rfl

/-- The step of a pop changes what is handed out and the place of its thread, but no count of
    stores. -/
theorem stepPop_frame (kept : Bool) (queue : SharedQueue.State (Fin num_threads) 100)
    (i : Fin num_threads) (spurious : Bool) :
    (stepPop kept queue i spurious).stored = queue.stored ∧
      (stepPop kept queue i spurious).pusher = queue.pusher ∧
      (∀ j, j ≠ i → (stepPop kept queue i spurious).pops j = queue.pops j) ∧
      ((∀ result, queue.pops i ≠ .taken result) →
        (stepPop kept queue i spurious).handed = queue.handed) := by
  unfold stepPop
  cases hp : queue.pops i with
  | idle => exact ⟨rfl, rfl, fun j hj => setPop_ne hj, fun _ => rfl⟩
  | loaded head =>
    dsimp only
    split
    · exact ⟨rfl, rfl, fun j hj => setPop_ne hj, fun _ => rfl⟩
    · exact ⟨rfl, rfl, fun j hj => setPop_ne hj, fun _ => rfl⟩
  | checked head =>
    dsimp only
    split
    · exact ⟨rfl, rfl, fun j hj => setPop_ne hj, fun _ => rfl⟩
    · exact ⟨rfl, rfl, fun j hj => setPop_ne hj, fun _ => rfl⟩
  | claimed head => exact ⟨rfl, rfl, fun j hj => setPop_ne hj, fun _ => rfl⟩
  | taken result => exact ⟨rfl, rfl, fun j hj => setPop_ne hj, fun h => absurd rfl (h result)⟩

theorem Tracks.poll (h : Tracks s) (hc : Timely s.queue (.pop i spurious))
    (hw : s.workers i = .popping) (hp : ∀ result, s.queue.pops i ≠ .taken result) :
    Tracks { s with queue := stepPop kept s.queue i spurious } := by
  obtain ⟨hstored, hpusher, hpops, hhanded⟩ := stepPop_frame kept s.queue i spurious
  refine h.queueStep (h.ledger.pop kept hc) ?_ (fun j hj => hpops j ?_) (hhanded hp) rfl
    (fun _ _ hk => hk) rfl rfl rfl
  · show _ = (stepPop kept s.queue i spurious).stored +
      underway (stepPop kept s.queue i spurious).pusher
    rw [hstored, hpusher]
    exact h.added
  · rintro rfl
    exact hj hw

theorem stepPop_taken {queue : SharedQueue.State (Fin num_threads) 100} {result : Option Nat}
    (kept : Bool) (hp : queue.pops i = .taken result) (spurious : Bool) :
    (stepPop kept queue i spurious).handed = queue.handed ++ result.toList ∧
      (stepPop kept queue i spurious).pops i = .idle := by
  unfold stepPop
  rw [hp]
  exact ⟨rfl, setPop_self⟩

/-- A pop returns: the worker goes on with a task that nobody has had. -/
theorem Tracks.receive (h : Tracks s) (hc : Timely s.queue (.pop i spurious)) {task : Task C}
    (hw : s.workers i = .popping) (hp : s.queue.pops i = .taken (some task.number))
    (ht : s.tasks[task.number]? = some task.obj) :
    Tracks { s.goTo i (.popped task) with queue := stepPop kept s.queue i spurious } := by
  obtain ⟨hstored, hpusher, hpops, -⟩ := stepPop_frame kept s.queue i spurious
  obtain ⟨hhanded, hidle⟩ := stepPop_taken kept hp spurious
  have hnew : task.number ∉ s.queue.handed := (h.ledger.inv.holding i _ (.inr hp)).2
  have hgrow : ∀ k, k ∈ (stepPop kept s.queue i spurious).handed ↔
      k ∈ s.queue.handed ∨ k = task.number := by
    intro k
    rw [hhanded]
    simp
  have hcase : ∀ j task', ((s.goTo i (.popped task)).workers j).task = some task' →
      (j = i ∧ task' = task) ∨ (j ≠ i ∧ (s.workers j).task = some task') := by
    intro j task' hj
    exact (task_goTo hj).imp_left fun ⟨hji, he⟩ => ⟨hji, (Option.some.inj he).symm⟩
  exact
    { ledger := h.ledger.pop kept hc
      added := by
        show _ = (stepPop kept s.queue i spurious).stored +
          underway (stepPop kept s.queue i spurious).pusher
        rw [hstored, hpusher]
        exact h.added
      busy_pop := by
        intro j hj
        by_cases hji : j = i
        · subst hji
          show Away ((stepPop kept s.queue j spurious).pops j)
          rw [hidle]
          trivial
        · show Away ((stepPop kept s.queue i spurious).pops j)
          rw [hpops j hji]
          exact h.busy_pop j (goTo_ne s hji _ ▸ hj)
      task_handed := by
        intro j task' hj
        rcases hcase j task' hj with ⟨-, rfl⟩ | ⟨-, hj⟩
        · exact (hgrow _).mpr (.inr rfl)
        · exact (hgrow _).mpr (.inl (h.task_handed j task' hj))
      task_obj := by
        intro j task' hj
        rcases hcase j task' hj with ⟨-, rfl⟩ | ⟨-, hj⟩
        · exact ht
        · exact h.task_obj j task' hj
      task_open := by
        intro j task' hj hm
        rcases hcase j task' hj with ⟨-, rfl⟩ | ⟨-, hj⟩
        · exact hnew (h.started_handed _ (h.closed_started _ hm))
        · exact h.task_open j task' hj hm
      task_unique := by
        intro j k task' task'' hj hk he
        rcases hcase j task' hj with ⟨hji, hj'⟩ | ⟨-, hj'⟩
        · rcases hcase k task'' hk with ⟨hki, -⟩ | ⟨-, hk'⟩
          · rw [hji, hki]
          · rw [hj'] at he
            exact absurd (he ▸ h.task_handed k task'' hk') hnew
        · rcases hcase k task'' hk with ⟨-, hk'⟩ | ⟨-, hk'⟩
          · rw [hk'] at he
            exact absurd (he ▸ h.task_handed j task' hj') hnew
          · exact h.task_unique j k task' task'' hj' hk' he
      handed_cases := by
        intro hterm k hk
        rcases (hgrow k).mp hk with hk | rfl
        · refine (h.handed_cases hterm k hk).imp_right ?_
          rintro ⟨j, task', hj, hnum⟩
          refine ⟨j, task', ?_, hnum⟩
          have hji : j ≠ i := by
            rintro rfl
            rw [hw] at hj
            cases hj
          show ((s.goTo i (.popped task)).workers j).task = some task'
          rw [goTo_ne s hji]
          exact hj
        · refine .inr ⟨i, task, ?_, rfl⟩
          show ((s.goTo i (.popped task)).workers i).task = some task
          rw [goTo_self]
          rfl
      popped_new := by
        intro j task' hj hm
        by_cases hji : j = i
        · subst hji
          obtain rfl := WorkerPc.popped.inj ((goTo_self s j _).symm.trans hj)
          exact hnew (h.started_handed _ hm)
        · exact h.popped_new j task' ((goTo_ne s hji _).symm.trans hj) hm
      begun_started := by
        intro j task' hj
        by_cases hji : j = i
        · subst hji
          cases (congrArg WorkerPc.begun (goTo_self s j (.popped task))).symm.trans hj
        · exact h.begun_started j task' (goTo_ne s hji (.popped task) ▸ hj)
      started_handed := fun k hk => (hgrow k).mpr (.inl (h.started_handed k hk))
      started_nodup := h.started_nodup
      closed_started := h.closed_started
      closed_nodup := h.closed_nodup }

/-- What a record of tasks becomes when a step enters `k` in it, or nothing. -/
structure Grows (l l' : List Nat) (k : Nat) : Prop where
  keeps : ∀ x ∈ l, x ∈ l'
  only : ∀ x ∈ l', x ∈ l ∨ x = k
  nodup : l'.Nodup

theorem Grows.refl {l : List Nat} (hl : l.Nodup) (k : Nat) : Grows l l k :=
  ⟨fun _ hx => hx, fun _ hx => .inl hx, hl⟩

theorem Grows.concat {l : List Nat} {k : Nat} (hl : l.Nodup) (hk : k ∉ l) :
    Grows l (l ++ [k]) k where
  keeps := fun _ hx => List.mem_append_left _ hx
  only := fun _ hx => (List.mem_append.mp hx).imp_right List.mem_singleton.mp
  nodup := by
    rw [← List.concat_eq_append]
    exact hl.concat hk

/-- After a step of a busy worker, whoever is busy still has no pop under way. -/
theorem Tracks.busy_goTo (h : Tracks s) {task : Task C} {pc : WorkerPc C K}
    (hw : (s.workers i).task = some task) (hj : (s.goTo i pc).workers j ≠ .popping) :
    Away (s.queue.pops j) := by
  by_cases hji : j = i
  · subst hji
    refine h.busy_pop j fun hp => ?_
    rw [hp] at hw
    cases hw
  · exact h.busy_pop j (goTo_ne s hji pc ▸ hj)

/-- After a step of a busy worker, the tasks that only wait for their handler are new. -/
theorem Tracks.popped_goTo (h : Tracks s) {task task' : Task C} {pc : WorkerPc C K}
    {started : List Nat} (hw : (s.workers i).task = some task) (hpc : pc ≠ .popped task')
    (hs : Grows s.started started task.number) (hj : (s.goTo i pc).workers j = .popped task') :
    task'.number ∉ started := by
  have hji : j ≠ i := by
    rintro rfl
    exact hpc ((goTo_self s j pc).symm.trans hj)
  rw [goTo_ne s hji] at hj
  intro hm
  rcases hs.only _ hm with hm | hm
  · exact h.popped_new j task' hj hm
  · exact hji (h.task_unique j i task' task (congrArg WorkerPc.task hj) hw hm)

theorem Tracks.handed_of_started (h : Tracks s) {task : Task C} {started : List Nat}
    (hw : (s.workers i).task = some task) (hs : Grows s.started started task.number) :
    ∀ k ∈ started, k ∈ s.queue.handed := by
  intro k hk
  rcases hs.only k hk with hk | rfl
  · exact h.started_handed k hk
  · exact h.task_handed i task hw

/-- A worker stays with its task, for which the handler has been called. -/
theorem Tracks.stay (h : Tracks s) {task : Task C} {pc : WorkerPc C K} {clashed : Bool}
    {started handled : List Nat} (hw : (s.workers i).task = some task)
    (hb : pc.begun = some task) (world : W) (hs : Grows s.started started task.number)
    (hin : task.number ∈ started) :
    Tracks { s.goTo i pc with
      world := world, clashed := clashed, started := started, handled := handled } := by
  have htask : pc.task = (s.workers i).task := by
    rw [WorkerPc.task_of_begun hb, hw]
  have heq := task_goTo_eq (s := s) htask
  have hpc : ∀ task', pc ≠ .popped task' := by
    rintro task' rfl
    cases hb
  exact
    { ledger := h.ledger
      added := h.added
      busy_pop := fun j hj => h.busy_goTo hw hj
      task_handed := fun j task' hj => h.task_handed j task' ((heq j).symm.trans hj)
      task_obj := fun j task' hj => h.task_obj j task' ((heq j).symm.trans hj)
      task_open := fun j task' hj => h.task_open j task' ((heq j).symm.trans hj)
      task_unique := fun j k task' task'' hj hk =>
        h.task_unique j k task' task'' ((heq j).symm.trans hj) ((heq k).symm.trans hk)
      handed_cases := fun hterm k hk => (h.handed_cases hterm k hk).imp_right
        fun ⟨j, task', hj, hnum⟩ => ⟨j, task', (heq j).trans hj, hnum⟩
      popped_new := fun j task' hj => h.popped_goTo hw (hpc task') hs hj
      begun_started := by
        intro j task' hj
        by_cases hji : j = i
        · subst hji
          rw [goTo_self, hb] at hj
          obtain rfl := Option.some.inj hj
          exact hin
        · exact hs.keeps _ (h.begun_started j task' (goTo_ne s hji pc ▸ hj))
      started_handed := h.handed_of_started hw hs
      started_nodup := hs.nodup
      closed_started := fun k hk => hs.keeps k (h.closed_started k hk)
      closed_nodup := h.closed_nodup }

/-- The handler is called for the task of `i`, and the worker stays with it. -/
theorem Tracks.begin (h : Tracks s) {task : Task C} {clashed : Bool}
    (hw : s.workers i = .popped task) :
    Tracks { s.goTo i (.handling task) with
      started := s.started ++ [task.number], clashed := clashed } :=
  h.stay (congrArg WorkerPc.task hw) rfl s.world
    (.concat h.started_nodup (h.popped_new i task hw))
    (List.mem_append_right _ (List.mem_singleton_self _))

/-- A worker that has called the handler goes on with its task. -/
theorem Tracks.goOn (h : Tracks s) {task : Task C} {pc : WorkerPc C K} {handled : List Nat}
    (hw : (s.workers i).begun = some task) (hb : pc.begun = some task) (world : W) :
    Tracks { s.goTo i pc with world := world, handled := handled } :=
  h.stay (WorkerPc.task_of_begun hw) hb world (.refl h.started_nodup _)
    (h.begun_started i task hw)

/-- A worker leaves its task: it is done with it, or the process ends. -/
theorem Tracks.leave (h : Tracks s) {task : Task C} {pc : WorkerPc C K} {terminated : Bool}
    {handled closed : List Nat} (hw : (s.workers i).task = some task) (hpc : pc.task = none)
    (world : W) (hc : Grows s.closed closed task.number) (hcs : ∀ k ∈ closed, k ∈ s.started)
    (hclosed : terminated = false → s.terminated = false ∧ task.number ∈ closed) :
    Tracks { s.goTo i pc with
      world := world, terminated := terminated, handled := handled, closed := closed } := by
  have hcase : ∀ j task', ((s.goTo i pc).workers j).task = some task' →
      j ≠ i ∧ (s.workers j).task = some task' := by
    intro j task' hj
    refine (task_goTo hj).resolve_left ?_
    rintro ⟨-, ht⟩
    cases hpc.symm.trans ht
  exact
    { ledger := h.ledger
      added := h.added
      busy_pop := fun j hj => h.busy_goTo hw hj
      task_handed := fun j task' hj => h.task_handed j task' (hcase j task' hj).2
      task_obj := fun j task' hj => h.task_obj j task' (hcase j task' hj).2
      task_open := by
        -- another worker's task is not the one that is left
        intro j task' hj hm
        obtain ⟨hji, hj⟩ := hcase j task' hj
        rcases hc.only _ hm with hm | hm
        · exact h.task_open j task' hj hm
        · exact hji (h.task_unique j i task' task hj hw hm)
      task_unique := fun j k task' task'' hj hk =>
        h.task_unique j k task' task'' (hcase j task' hj).2 (hcase k task'' hk).2
      handed_cases := by
        intro hterm k hk
        obtain ⟨hterm, htask⟩ := hclosed hterm
        rcases h.handed_cases hterm k hk with hm | ⟨j, task', hj, rfl⟩
        · exact .inl (hc.keeps k hm)
        · by_cases hji : j = i
          · subst hji
            obtain rfl := Option.some.inj (hw.symm.trans hj)
            exact .inl htask
          · exact .inr ⟨j, task', (congrArg WorkerPc.task (goTo_ne s hji pc)).trans hj, rfl⟩
      popped_new := by
        intro j task' hj
        refine h.popped_goTo hw ?_ (.refl h.started_nodup _) hj
        rintro rfl
        cases hpc
      begun_started := by
        intro j task' hj
        obtain ⟨hji, -⟩ := hcase j task' (WorkerPc.task_of_begun hj)
        exact h.begun_started j task' (goTo_ne s hji pc ▸ hj)
      started_handed := h.started_handed
      started_nodup := h.started_nodup
      closed_started := hcs
      closed_nodup := hc.nodup }

/-- An exception, or a signal, in a call for the task of `i`. -/
theorem Tracks.fail (h : Tracks s) {task : Task C} {handled : List Nat}
    (hw : (s.workers i).task = some task) (world : W) :
    Tracks { s.goTo i .ended with world := world, terminated := true, handled := handled } :=
  h.leave hw rfl world (.refl h.closed_nodup _) h.closed_started
    fun hf => absurd hf Bool.true_eq_false.mp

theorem Tracks.work (h : Tracks s) (hs : Work policies s i t) : Tracks t := by
  cases hs with
  | begin task hw => exact h.begin hw
  | answer task response world hw hh =>
    exact h.goOn (congrArg WorkerPc.begun hw) rfl world
  | refuse task world hw hh =>
    exact h.goOn (congrArg WorkerPc.begun hw) rfl world
  | fail task hw hh => exact h.fail (congrArg WorkerPc.task hw) _
  | send task response hw hs =>
    exact h.goOn (congrArg WorkerPc.begun hw) rfl _
  | sendFail task response hw hs => exact h.fail (congrArg WorkerPc.task hw) _
  | close task call hw =>
    have hbegun : (s.workers i).begun = some task := congrArg WorkerPc.begun hw
    have htask := WorkerPc.task_of_begun hbegun
    refine h.leave htask rfl _ (.concat h.closed_nodup (h.task_open i task htask)) ?_ ?_
    · intro k hk
      rcases List.mem_append.mp hk with hk | hk
      · exact h.closed_started k hk
      · rw [List.mem_singleton.mp hk]
        exact h.begun_started i task hbegun
    · exact fun hf => ⟨hf, List.mem_append_right _ (List.mem_singleton_self _)⟩
  | closeOn task call next rest hw =>
    exact h.goOn (congrArg WorkerPc.begun hw) rfl _

theorem Tracks.step (h : Tracks s) (hc : s.QueueOrderly event)
    (hs : Step policies arrive kept s event t) : Tracks t := by
  cases hs with
  | addTask obj hp => exact h.addTask arrive obj hp
  | push hp => exact h.push hc hp
  | poll i spurious hw hp => exact h.poll hc hw hp
  | receive i spurious task hw hp ht => exact h.receive hc hw hp ht
  | work i t hs => exact h.work hs

/-! ## The calls of the handler that have ended -/

/-- The record of the calls that have ended fits, too. -/
structure TracksHandled (s : Threadpool C W K num_threads) : Prop extends Tracks s where
  handled_started : ∀ k ∈ s.handled, k ∈ s.started
  handled_nodup : s.handled.Nodup
  handling_new : ∀ i task, s.workers i = .handling task → task.number ∉ s.handled
  answered_handled : ∀ i task, (s.workers i).handled = some task → task.number ∈ s.handled
  closed_handled : ∀ k ∈ s.closed, k ∈ s.handled

theorem tracksHandled_new (world : W) : TracksHandled (new C K num_threads world) where
  toTracks := tracks_new world
  handled_started := nofun
  handled_nodup := List.nodup_nil
  handling_new := nofun
  answered_handled := nofun
  closed_handled := nofun

/-- A step of `i` in which no call of the handler ends. -/
theorem TracksHandled.goTo (h : TracksHandled s) (ht : Tracks t) (pc : WorkerPc C K)
    (hworkers : t.workers = (s.goTo i pc).workers) (hhandled : t.handled = s.handled)
    (hstarted : ∀ k ∈ s.started, k ∈ t.started)
    (hnew : ∀ task, pc = .handling task → task.number ∉ s.handled)
    (hdone : ∀ task, pc.handled = some task → task.number ∈ s.handled)
    (hclosed : ∀ k ∈ t.closed, k ∈ s.handled) : TracksHandled t where
  toTracks := ht
  handled_started := by
    rw [hhandled]
    exact fun k hk => hstarted k (h.handled_started k hk)
  handled_nodup := hhandled ▸ h.handled_nodup
  handling_new := by
    intro j task hj
    rw [hhandled]
    rw [hworkers] at hj
    by_cases hji : j = i
    · subst hji
      exact hnew task ((goTo_self s j pc).symm.trans hj)
    · exact h.handling_new j task ((goTo_ne s hji pc).symm.trans hj)
  answered_handled := by
    intro j task hj
    rw [hhandled]
    rw [hworkers] at hj
    by_cases hji : j = i
    · subst hji
      rw [goTo_self] at hj
      exact hdone task hj
    · rw [goTo_ne s hji] at hj
      exact h.answered_handled j task hj
  closed_handled := hhandled ▸ hclosed

/-- The handler's call for the task of `i` ends. -/
theorem TracksHandled.finish (h : TracksHandled s) (ht : Tracks t) {task : Task C}
    (pc : WorkerPc C K) (hw : s.workers i = .handling task)
    (hworkers : t.workers = (s.goTo i pc).workers)
    (hhandled : t.handled = s.handled ++ [task.number]) (hstarted : t.started = s.started)
    (hpc : pc.inHandler = false) (hown : ∀ task', pc.handled = some task' → task' = task)
    (hclosed : t.closed = s.closed) : TracksHandled t where
  toTracks := ht
  handled_started := by
    rw [hhandled, hstarted]
    intro k hk
    rcases List.mem_append.mp hk with hk | hk
    · exact h.handled_started k hk
    · rw [List.mem_singleton.mp hk]
      exact h.begun_started i task (congrArg WorkerPc.begun hw)
  handled_nodup := by
    rw [hhandled]
    exact (Grows.concat h.handled_nodup (h.handling_new i task hw)).nodup
  handling_new := by
    intro j task' hj
    rw [hworkers] at hj
    rw [hhandled, List.mem_append, List.mem_singleton, not_or]
    have hji : j ≠ i := by
      rintro rfl
      rw [goTo_self] at hj
      rw [hj] at hpc
      cases hpc
    rw [goTo_ne s hji] at hj
    refine ⟨h.handling_new j task' hj, fun he => hji ?_⟩
    exact h.task_unique j i task' task (congrArg WorkerPc.task hj) (congrArg WorkerPc.task hw) he
  answered_handled := by
    intro j task' hj
    rw [hworkers] at hj
    rw [hhandled, List.mem_append]
    by_cases hji : j = i
    · subst hji
      rw [goTo_self] at hj
      rw [hown task' hj]
      exact .inr (List.mem_singleton_self _)
    · rw [goTo_ne s hji] at hj
      exact .inl (h.answered_handled j task' hj)
  closed_handled := by
    rw [hclosed, hhandled]
    exact fun k hk => List.mem_append_left _ (h.closed_handled k hk)

theorem TracksHandled.work (h : TracksHandled s) (hs : Work policies s i t) :
    TracksHandled t := by
  have ht : Tracks t := h.toTracks.work hs
  cases hs with
  | begin task hw =>
    have hnew : task.number ∉ s.handled := fun hm =>
      h.popped_new i task hw (h.handled_started _ hm)
    refine h.goTo ht (.handling task) rfl rfl (fun k => List.mem_append_left _) ?_ nofun
      h.closed_handled
    rintro _ ⟨⟩
    exact hnew
  | answer task response world hw hh =>
    exact h.finish ht (.answered task response) hw rfl rfl rfl rfl
      (fun _ he => (Option.some.inj he).symm) rfl
  | refuse task world hw hh =>
    exact h.finish ht (.closing task _ _) hw rfl rfl rfl rfl
      (fun _ he => (Option.some.inj he).symm) rfl
  | fail task hw hh => exact h.finish ht .ended hw rfl rfl rfl rfl nofun rfl
  | send task response hw hs =>
    refine h.goTo ht (.closing task _ _) rfl rfl (fun _ => id) nofun ?_ h.closed_handled
    rintro _ ⟨⟩
    exact h.answered_handled i task (congrArg WorkerPc.handled hw)
  | sendFail task response hw hs =>
    exact h.goTo ht .ended rfl rfl (fun _ => id) nofun nofun h.closed_handled
  | close task call hw =>
    refine h.goTo ht .popping rfl rfl (fun _ => id) nofun nofun fun k hk => ?_
    rcases List.mem_append.mp hk with hk | hk
    · exact h.closed_handled k hk
    · rw [List.mem_singleton.mp hk]
      exact h.answered_handled i task (congrArg WorkerPc.handled hw)
  | closeOn task call next rest hw =>
    refine h.goTo ht (.closing task _ _) rfl rfl (fun _ => id) nofun ?_ h.closed_handled
    rintro _ ⟨⟩
    exact h.answered_handled i task (congrArg WorkerPc.handled hw)

theorem TracksHandled.step (h : TracksHandled s) (hc : s.QueueOrderly event)
    (hs : Step policies arrive kept s event t) : TracksHandled t := by
  have ht : Tracks t := h.toTracks.step hc hs
  cases hs with
  | addTask obj hp => exact { h with toTracks := ht }
  | push hp => exact { h with toTracks := ht }
  | poll i spurious hw hp => exact { h with toTracks := ht }
  | receive i spurious task hw hp htask =>
    exact h.goTo ht (.popped task) rfl rfl (fun _ => id) nofun nofun h.closed_handled
  | work i t hs => exact h.work hs

/-! ## Runs -/

theorem held_eq_some {queue : SharedQueue.State (Fin num_threads) 100} {k : Nat} :
    held queue i = some k ↔ Holding queue i k := by
  unfold held Holding
  cases queue.pops i with
  | claimed head => simp
  | taken result => simp
  | idle => simp
  | loaded head => simp
  | checked head => simp

theorem mem_withPops {k : Nat} : k ∈ s.withPops ↔ ∃ i, Holding s.queue i k := by
  rw [withPops, List.mem_filterMap]
  constructor
  · rintro ⟨i, -, hi⟩
    exact ⟨i, held_eq_some.mp hi⟩
  · rintro ⟨i, hi⟩
    exact ⟨i, List.mem_finRange i, held_eq_some.mpr hi⟩

theorem mem_inHand {k : Nat} :
    k ∈ s.inHand ↔ ∃ i task, (s.workers i).task = some task ∧ task.number = k := by
  rw [inHand, List.mem_filterMap]
  constructor
  · rintro ⟨i, -, hi⟩
    obtain ⟨task, ht, hk⟩ := Option.map_eq_some_iff.mp hi
    exact ⟨i, task, ht, hk⟩
  · rintro ⟨i, task, ht, hk⟩
    exact ⟨i, List.mem_finRange i, Option.map_eq_some_iff.mpr ⟨task, ht, hk⟩⟩

theorem Tracks.claimed_le (h : Tracks s) : s.queue.claimed ≤ s.tasks.length := by
  rw [h.added]
  exact Nat.le_add_right_of_le h.ledger.counted.claimed_le

theorem Tracks.handed_lt (h : Tracks s) : ∀ k ∈ s.queue.handed, k < s.tasks.length := fun k hk =>
  Nat.lt_of_lt_of_le (h.ledger.inv.handed_lt k hk) h.claimed_le

theorem Tracks.mem_waiting (h : Tracks s) {k : Nat} :
    k ∈ s.waiting ↔ s.queue.claimed ≤ k ∧ k < s.tasks.length := by
  have hle := h.claimed_le
  rw [waiting, List.mem_range'_1]
  omega

theorem Tracks.nodup_withPops (h : Tracks s) : s.withPops.Nodup := by
  refine (List.nodup_finRange _).filterMap fun i j k hi hj => ?_
  exact h.ledger.inv.holding_unique i j k (held_eq_some.mp hi) (held_eq_some.mp hj)

theorem Tracks.nodup_inHand (h : Tracks s) : s.inHand.Nodup := by
  refine (List.nodup_finRange _).filterMap fun i j k hi hj => ?_
  obtain ⟨task, ht, hk⟩ := Option.map_eq_some_iff.mp hi
  obtain ⟨task', ht', hk'⟩ := Option.map_eq_some_iff.mp hj
  exact h.task_unique i j task task' ht ht' (hk.trans hk'.symm)

/-- Each task is in one of the four lists. -/
theorem Tracks.conserved (h : Tracks s) (hterm : s.terminated = false) :
    (s.closed ++ s.inHand ++ s.withPops ++ s.waiting).Perm (List.range s.tasks.length) := by
  have hinv := h.ledger.inv
  have hclosed : ∀ k ∈ s.closed, k ∈ s.queue.handed :=
    fun k hk => h.started_handed k (h.closed_started k hk)
  have hhand : ∀ k ∈ s.inHand, k ∈ s.queue.handed := by
    intro k hk
    obtain ⟨i, task, ht, rfl⟩ := mem_inHand.mp hk
    exact h.task_handed i task ht
  have hfirst : ∀ k ∈ s.closed ++ s.inHand, k ∈ s.queue.handed :=
    fun k hk => (List.mem_append.mp hk).elim (hclosed k) (hhand k)
  have hsecond : ∀ k ∈ s.closed ++ s.inHand ++ s.withPops, k < s.queue.claimed := by
    intro k hk
    rcases List.mem_append.mp hk with hk | hk
    · exact hinv.handed_lt k (hfirst k hk)
    · obtain ⟨i, hi⟩ := mem_withPops.mp hk
      exact (hinv.holding i k hi).1
  have hnodup : (s.closed ++ s.inHand ++ s.withPops ++ s.waiting).Nodup := by
    refine List.Nodup.append (.append (.append h.closed_nodup h.nodup_inHand ?_) h.nodup_withPops
      ?_) List.nodup_range' ?_
    · intro k hk hk'
      obtain ⟨i, task, ht, rfl⟩ := mem_inHand.mp hk'
      exact h.task_open i task ht hk
    · intro k hk hk'
      obtain ⟨i, hi⟩ := mem_withPops.mp hk'
      exact (hinv.holding i k hi).2 (hfirst k hk)
    · intro k hk hk'
      exact absurd (hsecond k hk) (Nat.not_lt.mpr (h.mem_waiting.mp hk').1)
  rw [List.perm_ext_iff_of_nodup hnodup List.nodup_range]
  intro k
  rw [List.mem_range, List.mem_append]
  constructor
  · rintro (hk | hk)
    · exact Nat.lt_of_lt_of_le (hsecond k hk) h.claimed_le
    · exact (h.mem_waiting.mp hk).2
  · intro hk
    rcases Nat.lt_or_ge k s.queue.claimed with hlt | hge
    · left
      rw [List.mem_append, List.mem_append]
      rcases h.ledger.accounted k hlt with hm | hm
      · exact .inl ((h.handed_cases hterm k hm).imp_right mem_inHand.mpr)
      · exact .inr (mem_withPops.mpr hm)
    · exact .inr (h.mem_waiting.mpr ⟨hge, hk⟩)

theorem tracks_of_run (world : W) {events : List (Event C num_threads)}
    (hc : StepsMeet QueueOrderly (step policies arrive kept) (new C K num_threads world) events)
    (hr : run (step policies arrive kept) (new C K num_threads world) events = some s) :
    Tracks s :=
  run_invariant (fun _ _ _ h hc hs => h.step hc (step_of_eq hs).2) (tracks_new world) hc hr

end Tasks

/-! ## A connection in the pool of a `TCPServer` -/

section Visit

variable {H : Type} {response : Bytes}

/-- The connection is added, popped by the last worker, answered and closed. -/
def visit (conn_obj : HTTPConnectionObject) : List (Event HTTPConnectionObject 4) :=
  .addTask conn_obj :: List.replicate 3 .push ++
    List.replicate 5 (.pop (Fin.last 3) false) ++ List.replicate 4 (.work (Fin.last 3))

theorem visit_runs (handle overlapped : Bytes → H → Outcome (Option Bytes) × H)
    (conn_obj : HTTPConnectionObject) (h : H)
    (hh : (handle conn_obj.request h).1 = ret (some response)) (network : Network)
    (hs : (TCPSender.sendMsg conn_obj response network).1 = ret ()) : ∃ s,
      (StepsMeet (fun s event => s.Permitted HTTPConnectionObject.client_fd event ∧
          s.CallsApart event)
        (step (tcpCallPolicies handle overlapped) (fun _ _ w => w) false)
        (new HTTPConnectionObject Unit 4 (h, network)) (visit conn_obj) ∧
      run (step (tcpCallPolicies handle overlapped) (fun _ _ w => w) false)
        (new HTTPConnectionObject Unit 4 (h, network)) (visit conn_obj) = some s) ∧
      s.tasks = [conn_obj] ∧ s.Drained := by
  have hpop {s : Threadpool HTTPConnectionObject (H × Network) Unit 4}
      (h : ∀ head, s.queue.pops (Fin.last 3) = .checked head → s.queue.queue.empty = false) :
      s.Permitted HTTPConnectionObject.client_fd (.pop (Fin.last 3) false) ∧
        s.CallsApart (.pop (Fin.last 3) false) :=
    ⟨⟨fun head hp _ _ => h head hp, nofun⟩, nofun⟩
  have hwork {s : Threadpool HTTPConnectionObject (H × Network) Unit 4}
      (h : s.calling = false) : s.Permitted HTTPConnectionObject.client_fd (.work (Fin.last 3)) ∧
        s.CallsApart (.work (Fin.last 3)) :=
    ⟨⟨trivial, nofun⟩, fun _ _ _ _ => h⟩
  have hbusy {s : Threadpool HTTPConnectionObject (H × Network) Unit 4}
      (h : ∀ task, s.workers (Fin.last 3) ≠ .popped task) :
      s.Permitted HTTPConnectionObject.client_fd (.work (Fin.last 3)) ∧
        s.CallsApart (.work (Fin.last 3)) :=
    ⟨⟨trivial, nofun⟩, callsApart_of_busy h⟩
  have hhandle : (tcpCallPolicies handle overlapped).handle conn_obj.request (h, network) =
      (ret (some response), (handle conn_obj.request h).2, network) := by
    rw [← hh]
    rfl
  refine ⟨_, meets_run_cons ⟨⟨trivial, fun _ _ _ _ => nofun⟩, nofun⟩ rfl
    (meets_run_cons ⟨⟨⟨fun _ _ _ => nofun, nofun⟩, nofun⟩, nofun⟩ rfl
    (meets_run_cons ⟨⟨⟨nofun, fun _ _ _ => rfl⟩, nofun⟩, nofun⟩ rfl
    (meets_run_cons ⟨⟨⟨nofun, nofun⟩, nofun⟩, nofun⟩ rfl
    (meets_run_cons (hpop nofun) rfl (meets_run_cons (hpop nofun) rfl
    (meets_run_cons (hpop fun _ _ => rfl) rfl (meets_run_cons (hpop nofun) rfl
    (meets_run_cons (hpop nofun) rfl (meets_run_cons (hwork rfl) rfl
    (meets_run_cons (hbusy nofun) (step_answer rfl rfl rfl hhandle)
    (meets_run_cons (hbusy nofun) (step_send rfl rfl hs)
    (meets_run_cons (hbusy nofun) rfl ⟨trivial, rfl⟩)))))))))))), rfl, rfl, rfl, rfl, ?_, ?_⟩
  · intro i
    fin_cases i <;> exact trivial
  · intro i
    fin_cases i <;> rfl

end Visit

/-- **In a run in which every step of the queue is orderly no connection is lost or handled
    twice**: each one that was added is closed, in the hands of one worker, with one pop or
    waiting, and the handler has been called for it at most once, on its own object. -/
theorem pool_conserves {C W K : Type} {num_threads : Nat} (policies : CallPolicies C W K)
    (arrive : Nat → C → W → W) (kept : Bool) (world : W) (events : List (Event C num_threads))
    (s : Threadpool C W K num_threads)
    (hc : StepsMeet QueueOrderly (step policies arrive kept) (new C K num_threads world) events)
    (hr : run (step policies arrive kept) (new C K num_threads world) events = some s) :
    s.started.Nodup ∧ (∀ k ∈ s.closed, k ∈ s.started) ∧
      (∀ i task, (s.workers i).task = some task → s.tasks[task.number]? = some task.obj) ∧
      (s.terminated = false →
        (s.closed ++ s.inHand ++ s.withPops ++ s.waiting).Perm (List.range s.tasks.length)) :=
  have h := tracks_of_run world hc hr
  ⟨h.started_nodup, h.closed_started, h.task_obj, h.conserved⟩

theorem pool_conserves_visit : ∃ s,
    run (step (tcpCallPolicies helloHandler helloHandler) (fun _ _ w => w) false)
      (new HTTPConnectionObject Unit 4 ((), fun _ => { answers := fun _ => .takes 8 }))
      (visit ⟨5, []⟩) = some s ∧
    (s.closed ++ s.inHand ++ s.withPops ++ s.waiting).Perm (List.range s.tasks.length) := by
  obtain ⟨s, ⟨hc, hr⟩, -, hd⟩ := visit_runs helloHandler helloHandler ⟨5, []⟩ () rfl
    (fun _ => { answers := fun _ => .takes 8 }) rfl
  exact ⟨s, hr, (pool_conserves (tcpCallPolicies helloHandler helloHandler) (fun _ _ w => w) false
    _ _ s (hc.imp fun _ _ h => h.1.1) hr).2.2.2 hd.goesOn⟩

end Threadpool

end SimpleServ.RequestProcessing
