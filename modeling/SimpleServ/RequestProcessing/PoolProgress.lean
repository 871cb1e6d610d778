import Mathlib.Algebra.Order.BigOperators.Group.Finset
import SimpleServ.RequestProcessing.Threadpool

/-
  The pool never gets stuck.

  `measure` counts the steps that are left: those of the workers with the tasks in their hands,
  those of a call of `add_task` in progress, and a whole round for each task that no pop has
  claimed. In a state in which it is not zero some run lowers it: a busy worker goes on, or an
  idle one pops the next task, or the pusher goes on when nothing is in the ring. A worker that
  is in the handler goes first, so that no other call begins meanwhile.

  `pool_can_finish`: from every state of an orderly run some orderly run, in which nothing is
  added, drains the pool or ends the process.
-/

namespace SimpleServ.RequestProcessing

open SimpleServ.Cxx SimpleServ.Lib SimpleServ.Server SimpleServ.Utility
  SimpleServ.Utility.LockFreeQueue SimpleServ.Utility.SharedQueue Outcome

namespace Threadpool

variable {C W K : Type} {num_threads : Nat} {policies : CallPolicies C W K}
  {arrive : Nat → C → W → W} {kept : Bool} {s t : Threadpool C W K num_threads}
  {event : Event C num_threads} {i : Fin num_threads} {task : Task C}

/-! ## What is left to do -/

/-- The steps of a worker from the handler's call to the end of the closer. -/
def taskSteps (policies : CallPolicies C W K) : Nat := policies.laterCalls.length + 4

/-- The steps after which the worker has nothing in its hands. -/
def workerSteps (policies : CallPolicies C W K) (pop : PopPc 100) : WorkerPc C K → Nat
  | .popping =>
    match pop with
    | .claimed _ => taskSteps policies + 2
    | .taken _ => taskSteps policies + 1
    | .idle | .loaded _ | .checked _ => 0
  | .popped _ => taskSteps policies
  | .handling _ => policies.laterCalls.length + 3
  | .answered _ _ => policies.laterCalls.length + 2
  | .closing _ _ rest => rest.length + 1
  | .ended => 0

def pushSteps : PushPc 100 → Nat
  | .loaded _ => 3
  | .written _ => 2
  | .stored => 1
  | .idle => 0

def left (policies : CallPolicies C W K) (s : Threadpool C W K num_threads)
    (i : Fin num_threads) : Nat := workerSteps policies (s.queue.pops i) (s.workers i)

def measure (policies : CallPolicies C W K) (s : Threadpool C W K num_threads) : Nat :=
  ∑ i, s.left policies i + pushSteps s.queue.pusher +
    (s.tasks.length - s.queue.claimed) * (taskSteps policies + 3)

/-- A worker goes on, and nothing else moves. -/
theorem measure_worker (htasks : t.tasks = s.tasks) (hclaimed : t.queue.claimed = s.queue.claimed)
    (hpusher : t.queue.pusher = s.queue.pusher)
    (hothers : ∀ j, j ≠ i → t.left policies j = s.left policies j)
    (hi : t.left policies i < s.left policies i) : t.measure policies < s.measure policies := by
  have hle : ∀ j ∈ Finset.univ, t.left policies j ≤ s.left policies j := by
    intro j _
    by_cases hji : j = i
    · exact hji ▸ hi.le
    · exact (hothers j hji).le
  have hsum := Finset.sum_lt_sum hle ⟨i, Finset.mem_univ i, hi⟩
  unfold measure
  rw [htasks, hclaimed, hpusher]
  omega

/-- A worker takes on a task that no pop has claimed. -/
theorem measure_claim (htasks : t.tasks = s.tasks)
    (hclaimed : t.queue.claimed = s.queue.claimed + 1) (hlt : s.queue.claimed < s.tasks.length)
    (hpusher : t.queue.pusher = s.queue.pusher)
    (hothers : ∀ j, j ≠ i → t.left policies j = s.left policies j)
    (hi : t.left policies i ≤ taskSteps policies + 2) :
    t.measure policies < s.measure policies := by
  have hsum : ∑ j, t.left policies j ≤ ∑ j, s.left policies j + (taskSteps policies + 2) := by
    have hs := Finset.add_sum_erase Finset.univ (s.left policies) (Finset.mem_univ i)
    have ht := Finset.add_sum_erase Finset.univ (t.left policies) (Finset.mem_univ i)
    have heq : ∑ j ∈ Finset.univ.erase i, t.left policies j =
        ∑ j ∈ Finset.univ.erase i, s.left policies j :=
      Finset.sum_congr rfl fun j hj => hothers j (Finset.ne_of_mem_erase hj)
    omega
  have hmul : (s.tasks.length - s.queue.claimed) * (taskSteps policies + 3) =
      (s.tasks.length - (s.queue.claimed + 1)) * (taskSteps policies + 3) +
        (taskSteps policies + 3) := by
    rw [← Nat.succ_mul]
    congr 1
    omega
  unfold measure
  rw [htasks, hclaimed, hpusher]
  omega

/-! ## Steps that can be taken -/

/-- The step of the queue is orderly, no calls of the handler overlap, and nothing is added. -/
def Unfed (s : Threadpool C W K num_threads) (event : Event C num_threads) : Prop :=
  s.QueueOrderly event ∧ s.CallsApart event ∧ ∀ obj, event ≠ .addTask obj

/-- The records fit, and only the end of the process ends a worker. -/
structure Going (s : Threadpool C W K num_threads) : Prop where
  tracks : Tracks s
  ended : ∀ i, s.workers i = .ended → s.terminated = true

theorem going_new (world : W) : Going (new C K num_threads world) := ⟨tracks_new world, nofun⟩

theorem Going.step (h : Going s) (hc : s.QueueOrderly event)
    (hs : step policies arrive kept s event = some t) : Going t := by
  obtain ⟨hterm, hs⟩ := step_of_eq hs
  refine ⟨h.tracks.step hc hs, fun j hj => ?_⟩
  have hnot : ∀ j, s.workers j ≠ .ended := by
    intro j he
    rw [h.ended j he] at hterm
    cases hterm
  have hgo (i : Fin num_threads) (pc : WorkerPc C K) (hpc : pc ≠ .ended)
      (he : (s.goTo i pc).workers j = .ended) : t.terminated = true := by
    exfalso
    by_cases hji : j = i
    · subst hji
      exact hpc ((goTo_self s j pc).symm.trans he)
    · exact hnot j ((goTo_ne s hji pc).symm.trans he)
  cases hs with
  | addTask obj hp => exact absurd hj (hnot j)
  | push hp => exact absurd hj (hnot j)
  | poll i spurious hw hp => exact absurd hj (hnot j)
  | receive i spurious task hw hp ht => exact hgo i (.popped task) nofun hj
  | work i t hs =>
    cases hs with
    | begin task hw => exact hgo i (.handling task) nofun hj
    | answer task response world hw hh => exact hgo i (.answered task response) nofun hj
    | refuse task world hw hh => exact hgo i (.closing task _ _) nofun hj
    | fail task hw hh => rfl
    | send task response hw hs => exact hgo i (.closing task _ _) nofun hj
    | sendFail task response hw hs => rfl
    | close task call hw => exact hgo i .popping nofun hj
    | closeOn task call next rest hw => exact hgo i (.closing task next rest) nofun hj

theorem Going.reaches (h : Going s)
    (hr : Reaches Unfed (Threadpool.step policies arrive kept) s t) : Going t := by
  obtain ⟨events, hc, hr⟩ := hr
  exact run_invariant (fun _ _ _ h hc hs => Going.step h hc.1 hs) h hc hr

theorem work_enabled (h : (s.workers i).task = some task) :
    ∃ t, s.work policies i = some t := by
  unfold work
  cases hw : s.workers i with
  | popping => rw [hw] at h; cases h
  | popped task => exact ⟨_, rfl⟩
  | handling task =>
    dsimp only
    split <;> exact ⟨_, rfl⟩
  | answered task response =>
    dsimp only
    split <;> exact ⟨_, rfl⟩
  | closing task call rest =>
    cases rest with
    | nil => exact ⟨_, rfl⟩
    | cons next rest => exact ⟨_, rfl⟩
  | ended => rw [hw] at h; cases h

theorem step_work (hterm : s.terminated = false) (h : s.work policies i = some t) :
    step policies arrive kept s (.work i) = some t := by
  unfold step
  rw [hterm, if_neg Bool.false_ne_true]
  exact h

theorem step_pop (hterm : s.terminated = false) (spurious : Bool) :
    step policies arrive kept s (.pop i spurious) = s.pop kept i spurious := by
  unfold step
  rw [if_neg (by rw [hterm]; exact Bool.false_ne_true)]

/-- A step of a pop that does not come back with an element. -/
theorem reaches_poll (hterm : s.terminated = false) (hw : s.workers i = .popping)
    (hp : ∀ result, s.queue.pops i ≠ .taken result) (spurious : Bool)
    (hc : Timely s.queue (.pop i spurious)) :
    Reaches Unfed (step policies arrive kept) s
      { s with queue := stepPop kept s.queue i spurious } := by
  refine .single (e := .pop i spurious) ⟨hc, nofun, nofun⟩ ?_
  rw [step_pop hterm, pop, hw]
  dsimp only
  split
  · next heq => exact absurd heq (hp none)
  · next k heq => exact absurd heq (hp (some k))
  · rfl

/-- The step of a pop that comes back with the element `k`. -/
theorem reaches_receive (hterm : s.terminated = false) (hw : s.workers i = .popping)
    (hp : s.queue.pops i = .taken (some task.number)) (ht : s.tasks[task.number]? = some task.obj) :
    Reaches Unfed (step policies arrive kept) s
      { s.goTo i (.popped task) with queue := stepPop kept s.queue i false } := by
  have hc : Timely s.queue (.pop i false) := by
    intro head hh
    rw [hp] at hh
    cases hh
  refine .single (e := .pop i false) ⟨hc, nofun, nofun⟩ ?_
  rw [step_pop hterm, pop, hw, hp]
  dsimp only
  rw [ht]

/-! ## Some run lowers the measure -/

/-- Some orderly run that adds no task lowers the measure, or ends the process. -/
def Lowers (policies : CallPolicies C W K) (arrive : Nat → C → W → W) (kept : Bool)
    (s : Threadpool C W K num_threads) : Prop :=
  ∃ t, Reaches Unfed (step policies arrive kept) s t ∧ t.tasks = s.tasks ∧
    (t.terminated = true ∨ t.measure policies < s.measure policies)

/-- A worker with a task takes its next step. -/
theorem Going.lower_task (h : Going s) (hterm : s.terminated = false)
    (hi : (s.workers i).task = some task) (hc : s.CallsApart (.work i)) :
    Lowers policies arrive kept s := by
  obtain ⟨t, ht⟩ : ∃ t, s.work policies i = some t := work_enabled hi
  refine ⟨t, .single (e := .work i) ⟨trivial, hc, nofun⟩ (step_work hterm ht), ?_⟩
  have hothers (pc : WorkerPc C K) : ∀ j, j ≠ i →
      (s.goTo i pc).left policies j = s.left policies j := by
    intro j hji
    unfold left
    rw [goTo_ne s hji]
    rfl
  have hself (pc : WorkerPc C K) : (s.goTo i pc).left policies i =
      workerSteps policies (s.queue.pops i) pc := by
    unfold left
    rw [goTo_self]
    rfl
  cases work_of_eq ht with
  | begin task hw =>
    refine ⟨rfl, .inr (measure_worker rfl rfl rfl (hothers (.handling task)) ?_)⟩
    refine (hself (.handling task)).trans_lt ?_
    rw [left, hw]
    exact Nat.lt_succ_self _
  | answer task response world hw hh =>
    refine ⟨rfl, .inr (measure_worker rfl rfl rfl (hothers (.answered task response)) ?_)⟩
    refine (hself (.answered task response)).trans_lt ?_
    rw [left, hw]
    exact Nat.lt_succ_self _
  | refuse task world hw hh =>
    refine ⟨rfl, .inr (measure_worker rfl rfl rfl
      (hothers (.closing task policies.firstCall policies.laterCalls)) ?_)⟩
    refine (hself (.closing task policies.firstCall policies.laterCalls)).trans_lt ?_
    rw [left, hw]
    show policies.laterCalls.length + 1 < policies.laterCalls.length + 3
    omega
  | fail task hw hh => exact ⟨rfl, .inl rfl⟩
  | send task response hw hs =>
    refine ⟨rfl, .inr (measure_worker rfl rfl rfl
      (hothers (.closing task policies.firstCall policies.laterCalls)) ?_)⟩
    refine (hself (.closing task policies.firstCall policies.laterCalls)).trans_lt ?_
    rw [left, hw]
    exact Nat.lt_succ_self _
  | sendFail task response hw hs => exact ⟨rfl, .inl rfl⟩
  | close task call hw =>
    refine ⟨rfl, .inr (measure_worker rfl rfl rfl (hothers .popping) ?_)⟩
    refine (hself .popping).trans_lt ?_
    -- a worker with a task has claimed nothing
    have haway := h.tracks.busy_pop i (by rw [hw]; nofun)
    rw [left, hw]
    cases hp : s.queue.pops i with
    | idle => exact Nat.zero_lt_one
    | loaded head => exact Nat.zero_lt_one
    | checked head => exact Nat.zero_lt_one
    | claimed head => rw [hp] at haway; exact haway.elim
    | taken result => rw [hp] at haway; exact haway.elim
  | closeOn task call next rest hw =>
    refine ⟨rfl, .inr (measure_worker rfl rfl rfl (hothers (.closing task next rest)) ?_)⟩
    refine (hself (.closing task next rest)).trans_lt ?_
    rw [left, hw]
    exact Nat.lt_succ_self _

/-- A pop that has claimed an element takes its next step. -/
theorem Going.lower_pop (h : Going s) (hterm : s.terminated = false)
    (hw : s.workers i = .popping) (hp : ¬ Away (s.queue.pops i)) :
    Lowers policies arrive kept s := by
  have hleft : s.left policies i = workerSteps policies (s.queue.pops i) .popping := by
    rw [left, hw]
  cases hpop : s.queue.pops i with
  | idle => exact absurd (hpop ▸ trivial) hp
  | loaded head => exact absurd (hpop ▸ trivial) hp
  | checked head => exact absurd (hpop ▸ trivial) hp
  | claimed head =>
    have hstep : stepPop kept s.queue i false = setPop { s.queue with
        queue := setSlot s.queue.queue head (if kept then slot s.queue.queue head else none) } i
          (.taken (slot s.queue.queue head)) := by
      unfold stepPop
      rw [hpop]
    refine ⟨_, reaches_poll hterm hw (fun result hr => ?_) false (fun head' hh => ?_), rfl, ?_⟩
    · rw [hpop] at hr
      cases hr
    · rw [hpop] at hh
      cases hh
    · rw [hstep]
      refine .inr (measure_worker (i := i) rfl rfl rfl (fun j hji => ?_) ?_)
      · unfold left
        dsimp only
        rw [setPop_ne hji]
      · rw [hleft, hpop]
        unfold left
        dsimp only
        rw [setPop_self, hw]
        exact Nat.lt_succ_self _
  | taken result =>
    cases result with
    | none => exact absurd hpop (h.tracks.ledger.taken_some i)
    | some k =>
      have hk : k < s.tasks.length := by
        have hlt := (h.tracks.ledger.inv.holding i k (.inr hpop)).1
        exact Nat.lt_of_lt_of_le hlt h.tracks.claimed_le
      have htask : s.tasks[(⟨k, s.tasks[k]⟩ : Task C).number]? = some s.tasks[k] :=
        List.getElem?_eq_getElem hk
      refine ⟨_, reaches_receive hterm hw hpop htask, rfl, ?_⟩
      have hstep : stepPop kept s.queue i false = setPop { s.queue with
          queue := { s.queue.queue with size_ := s.queue.queue.size_ - 1 }
          handed := s.queue.handed ++ [k] } i .idle := by
        unfold stepPop
        rw [hpop]
        rfl
      rw [hstep]
      refine .inr (measure_worker (i := i) rfl rfl rfl (fun j hji => ?_) ?_)
      · unfold left
        dsimp only
        rw [setPop_ne hji, goTo_ne s hji]
      · rw [hleft, hpop]
        unfold left
        dsimp only
        rw [setPop_self, goTo_self]
        exact Nat.lt_succ_self _

/-- An idle worker gives up the pop that it has begun. -/
theorem reaches_idle (hterm : s.terminated = false) (hw : s.workers i = .popping)
    (hp : Away (s.queue.pops i)) :
    Reaches Unfed (step policies arrive kept) s
      { s with queue := setPop s.queue i .idle } := by
  -- the compare-exchange may fail
  have hchecked {s : Threadpool C W K num_threads} {head : Fin 100} (hterm : s.terminated = false)
      (hw : s.workers i = .popping) (hpop : s.queue.pops i = .checked head) :
      Reaches Unfed (step policies arrive kept) s
        { s with queue := setPop s.queue i .idle } := by
    have hstep : stepPop kept s.queue i true = setPop s.queue i .idle := by
      unfold stepPop
      rw [hpop]
      exact if_pos (.inl rfl)
    rw [← hstep]
    refine reaches_poll hterm hw (fun result hr => ?_) true fun _ _ _ => nofun
    rw [hpop] at hr
    cases hr
  cases hpop : s.queue.pops i with
  | idle =>
    have hsame : setPop s.queue i .idle = s.queue := by
      unfold setPop
      rw [← hpop, Function.update_eq_self]
    rw [hsame]
    exact .refl s
  | loaded head =>
    have hfirst : Reaches Unfed (step policies arrive kept) s
        { s with queue := stepPop kept s.queue i false } :=
      reaches_poll hterm hw (by rw [hpop]; nofun) false
        (by intro head' hh; rw [hpop] at hh; cases hh)
    by_cases he : head = s.queue.queue.tail_
    · have hstep : stepPop kept s.queue i false = setPop s.queue i .idle := by
        unfold stepPop
        rw [hpop]
        exact if_pos he
      rwa [hstep] at hfirst
    · have hstep : stepPop kept s.queue i false = setPop s.queue i (.checked head) := by
        unfold stepPop
        rw [hpop]
        exact if_neg he
      rw [hstep] at hfirst
      have hsecond := hchecked (s := { s with queue := setPop s.queue i (.checked head) }) hterm hw
        setPop_self
      have hsame : setPop (setPop s.queue i (.checked head)) i .idle = setPop s.queue i .idle := by
        unfold setPop
        rw [Function.update_idem]
      rw [hsame] at hsecond
      exact hfirst.trans hsecond
  | checked head => exact hchecked hterm hw hpop
  | claimed head => rw [hpop] at hp; exact hp.elim
  | taken result => rw [hpop] at hp; exact hp.elim

/-- A pop that begins on a queue that is not empty, alone, claims the next element. -/
theorem reaches_claim (policies : CallPolicies C W K) (arrive : Nat → C → W → W) (kept : Bool)
    (hterm : s.terminated = false) (hw : s.workers i = .popping)
    (hpop : s.queue.pops i = .idle) (hne : s.queue.queue.empty = false) :
    ∃ t head, Reaches Unfed (step policies arrive kept) s t ∧ t.tasks = s.tasks ∧
      t.workers = s.workers ∧ t.queue.pusher = s.queue.pusher ∧
      t.queue.claimed = s.queue.claimed + 1 ∧ t.queue.pops i = .claimed head ∧
      ∀ j, j ≠ i → t.queue.pops j = s.queue.pops j := by
  have hat (pc : PopPc 100) (hidle : pc = .idle ∨ (∃ head, pc = .loaded head) ∨
      ∃ head, pc = .checked head ∧ head.val = s.queue.queue.head_) :
      Reaches Unfed (step policies arrive kept) { s with queue := setPop s.queue i pc }
        { s with queue := stepPop kept (setPop s.queue i pc) i false } := by
    refine reaches_poll (s := { s with queue := setPop s.queue i pc }) hterm hw
      (fun result hr => ?_) false (fun head hh _ _ => hne)
    rw [show (setPop s.queue i pc).pops i = pc from setPop_self] at hr
    rcases hidle with rfl | ⟨head, rfl⟩ | ⟨head, rfl, -⟩ <;> cases hr
  have hself (pc : PopPc 100) : (setPop s.queue i pc).pops i = pc := setPop_self
  have hidem (pc pc' : PopPc 100) : setPop (setPop s.queue i pc) i pc' = setPop s.queue i pc' := by
    unfold setPop
    rw [Function.update_idem]
  have hnetail : s.queue.queue.head_ ≠ s.queue.queue.tail_ := by
    intro he
    rw [empty, beq_eq_false_iff_ne] at hne
    exact hne he
  let head : Fin 100 := ⟨s.queue.queue.head_, s.queue.queue.head_lt⟩
  have hload := hat .idle (.inl rfl)
  have hcheck := hat (.loaded head) (.inr (.inl ⟨head, rfl⟩))
  have hclaim := hat (.checked head) (.inr (.inr ⟨head, rfl, rfl⟩))
  have hstart : setPop s.queue i .idle = s.queue := by
    unfold setPop
    rw [← hpop, Function.update_eq_self]
  have hloaded : stepPop kept (setPop s.queue i .idle) i false =
      setPop s.queue i (.loaded head) := by
    unfold stepPop
    rw [hself]
    exact hidem _ _
  have hchecked : stepPop kept (setPop s.queue i (.loaded head)) i false =
      setPop s.queue i (.checked head) := by
    unfold stepPop
    rw [hself]
    dsimp only
    rw [hidem, hidem]
    exact if_neg hnetail
  rw [hloaded, hstart] at hload
  rw [hchecked] at hcheck
  have hclaimed : stepPop kept (setPop s.queue i (.checked head)) i false =
      setPop { s.queue with
        queue := { s.queue.queue with
          head_ := next 100 head head.isLt, head_lt := next_lt head.isLt }
        claimed := s.queue.claimed + 1 } i (.claimed head) := by
    unfold stepPop
    rw [hself]
    dsimp only
    refine (if_neg (not_or.mpr ⟨Bool.false_ne_true, fun hn => hn rfl⟩)).trans ?_
    unfold setPop
    dsimp only
    rw [Function.update_idem]
  rw [hclaimed] at hclaim
  exact ⟨_, head, (hload.trans hcheck).trans hclaim, rfl, rfl, rfl, rfl, setPop_self,
    fun j hji => setPop_ne hji⟩

/-- An idle worker takes on the next task. -/
theorem Going.lower_ring (h : Going s) (hterm : s.terminated = false)
    (hw : s.workers i = .popping) (hp : Away (s.queue.pops i))
    (hne : s.queue.queue.empty = false) :
    Lowers policies arrive kept s := by
  have hidle : Reaches Unfed (Threadpool.step policies arrive kept) s
      { s with queue := setPop s.queue i .idle } := reaches_idle hterm hw hp
  obtain ⟨t, head, hr, htasks, hworkers, hpusher, hclaimed, hi, hothers⟩ :=
    reaches_claim policies arrive kept (s := { s with queue := setPop s.queue i .idle })
      hterm hw setPop_self hne
  have hlt : s.queue.claimed < s.tasks.length := by
    have hle := h.tracks.ledger.counted.claimed_le
    have hadd := h.tracks.added
    have hc := h.tracks.ledger.counted
    have hstored : s.queue.claimed ≠ s.queue.stored := by
      intro he
      rw [empty, beq_eq_false_iff_ne, hc.head_eq, hc.tail_eq, he] at hne
      exact hne rfl
    omega
  refine ⟨t, hidle.trans hr, htasks, .inr
    (measure_claim (i := i) htasks hclaimed hlt hpusher ?_ ?_)⟩
  · intro j hji
    rw [left, left, hworkers, hothers j hji]
    exact congrArg (fun pop => workerSteps policies pop _) (setPop_ne hji)
  · rw [left, hi, hworkers, hw]
    exact le_rfl

/-- The pusher goes on when nothing is in the ring and no pop has claimed anything. -/
theorem lower_push (hterm : s.terminated = false)
    (hp : s.queue.pusher ≠ .idle) (hempty : s.queue.queue.empty = true)
    (haway : ∀ i, Away (s.queue.pops i)) :
    Lowers policies arrive kept s := by
  have hstep : step policies arrive kept s .push =
      some { s with queue := stepPush s.queue } := by
    unfold step
    rw [if_neg (by rw [hterm]; exact Bool.false_ne_true)]
    dsimp only [push]
    split
    · next heq => exact absurd heq hp
    · rfl
  have hfull : s.queue.queue.full = false := by
    have hsame : s.queue.queue.head_ = s.queue.queue.tail_ := beq_iff_eq.mp hempty
    rw [full, beq_eq_false_iff_ne, next_eq, hsame]
    have hlt := s.queue.queue.tail_lt
    omega
  have horderly : Orderly s.queue .push := by
    refine ⟨fun tail _ i hi => ?_, fun _ _ _ => hfull⟩
    have ha := haway i
    rw [hi] at ha
    exact ha
  have hunfed : Unfed s .push := by
    refine ⟨horderly, fun _ _ he => ?_, fun _ he => ?_⟩ <;> cases he
  refine ⟨_, .single hunfed hstep, rfl, .inr ?_⟩
  obtain ⟨hclaimed, -, hpops⟩ := stepPush_pops s.queue
  have hpush : pushSteps (stepPush s.queue).pusher < pushSteps s.queue.pusher := by
    unfold stepPush
    cases hpc : s.queue.pusher with
    | idle => exact absurd hpc hp
    | loaded tail => exact Nat.lt_succ_self _
    | written tail => exact Nat.lt_succ_self _
    | stored => exact Nat.lt_succ_self _
  unfold measure left
  dsimp only
  rw [hclaimed, hpops]
  omega

/-! ## The end -/

/-- A state that is neither drained nor terminated leads to one with less to do. -/
theorem Going.lower (h : Going s) (i : Fin num_threads)
    (hd : ¬ (s.Drained ∨ s.terminated = true)) : Lowers policies arrive kept s := by
  have hterm : s.terminated = false := Bool.eq_false_iff.mpr fun ht => hd (.inr ht)
  by_cases hcalling : ∃ i task, s.workers i = .handling task
  · obtain ⟨i, task, hw⟩ := hcalling
    refine h.lower_task hterm (congrArg WorkerPc.task hw) (callsApart_of_busy fun task' hp => ?_)
    cases hw.symm.trans hp
  have hnone : s.calling = false := by
    refine List.any_eq_false.mpr fun j _ hj => hcalling ⟨j, ?_⟩
    cases hw : s.workers j with
    | handling task => exact ⟨task, rfl⟩
    | popping => rw [hw] at hj; cases hj
    | popped task => rw [hw] at hj; cases hj
    | answered task response => rw [hw] at hj; cases hj
    | closing task call rest => rw [hw] at hj; cases hj
    | ended => rw [hw] at hj; cases hj
  by_cases htask : ∃ i task, (s.workers i).task = some task
  · obtain ⟨i, task, hi⟩ := htask
    exact h.lower_task hterm hi fun _ _ _ _ => hnone
  · have hpopping : ∀ i, s.workers i = .popping := by
      intro i
      cases hw : s.workers i with
      | popping => rfl
      | popped task => exact absurd ⟨i, task, by rw [hw]; rfl⟩ htask
      | handling task => exact absurd ⟨i, task, hw⟩ hcalling
      | answered task response => exact absurd ⟨i, task, by rw [hw]; rfl⟩ htask
      | closing task call rest => exact absurd ⟨i, task, by rw [hw]; rfl⟩ htask
      | ended =>
        rw [h.ended i hw] at hterm
        cases hterm
    by_cases haway : ∀ i, Away (s.queue.pops i)
    · cases hempty : s.queue.queue.empty with
      | false => exact h.lower_ring hterm (hpopping i) (haway i) hempty
      | true =>
        have hp : s.queue.pusher ≠ .idle := fun hp =>
          hd (.inl ⟨hterm, hp, hempty, haway, hpopping⟩)
        exact lower_push hterm hp hempty haway
    · obtain ⟨i, hi⟩ := not_forall.mp haway
      exact h.lower_pop hterm (hpopping i) hi

/-- By the measure. -/
theorem Going.reaches_end (policies : CallPolicies C W K) (arrive : Nat → C → W → W) (kept : Bool)
    (h : Going s) (i : Fin num_threads) :
    ∃ t, Reaches Unfed (Threadpool.step policies arrive kept) s t ∧ t.tasks = s.tasks ∧
      (t.Drained ∨ t.terminated = true) := by
  have hlower : ∀ t : Threadpool C W K num_threads, Going t ∧ t.tasks = s.tasks →
      ¬ (t.Drained ∨ t.terminated = true) →
      ∃ u, Reaches Unfed (Threadpool.step policies arrive kept) t u ∧
        (Going u ∧ u.tasks = s.tasks) ∧ ((u.Drained ∨ u.terminated = true) ∨
          u.measure policies < t.measure policies) := by
    rintro t ⟨ht, htasks⟩ hd
    obtain ⟨u, hu, hsame, hlt⟩ : Lowers policies arrive kept t := ht.lower i hd
    exact ⟨u, hu, ⟨ht.reaches hu, hsame.trans htasks⟩, hlt.imp_left .inr⟩
  obtain ⟨t, hr, ⟨-, htasks⟩, hd⟩ := exists_reaches_done (measure policies) hlower ⟨h, rfl⟩
  exact ⟨t, hr, htasks, hd⟩

/-- **The pool never gets stuck.** From every state of an orderly run of a pool with a worker,
    some orderly run without a new task, and in which no calls of the handler overlap, leads to a
    state in which the pool has drained, or in which the process has ended. -/
theorem pool_can_finish (policies : CallPolicies C W K) (arrive : Nat → C → W → W) (kept : Bool)
    (world : W) (i : Fin num_threads) (events : List (Event C num_threads))
    (s : Threadpool C W K num_threads)
    (hc : StepsMeet QueueOrderly (step policies arrive kept) (new C K num_threads world) events)
    (hr : run (step policies arrive kept) (new C K num_threads world) events = some s) :
    ∃ later t, StepsMeet Unfed (step policies arrive kept) s later ∧
      run (step policies arrive kept) s later = some t ∧ t.tasks = s.tasks ∧
      (t.Drained ∨ t.terminated = true) := by
  have hs : Going s :=
    run_invariant (fun _ _ _ h hc hs => Going.step h hc hs) (going_new world) hc hr
  obtain ⟨t, ⟨later, hc', hr'⟩, htasks, hd⟩ := hs.reaches_end policies arrive kept i
  exact ⟨later, t, hc', hr', htasks, hd⟩

/-- A connection has been accepted and nobody has begun to pop it. -/
theorem pool_can_finish_added : ∃ s later t,
    run (step (tcpCallPolicies helloHandler helloHandler) (fun _ _ w => w) false)
      (new HTTPConnectionObject Unit 4 ((), fun _ => { answers := fun _ => .takes 8 }))
      [.addTask ⟨5, []⟩] = some s ∧
    run (step (tcpCallPolicies helloHandler helloHandler) (fun _ _ w => w) false) s later = some t ∧
    t.tasks = [⟨5, []⟩] ∧ (t.Drained ∨ t.terminated = true) := by
  obtain ⟨s, hr, htasks⟩ : ∃ s,
      run (step (tcpCallPolicies helloHandler helloHandler) (fun _ _ w => w) false)
        (new HTTPConnectionObject Unit 4 ((), fun _ => { answers := fun _ => .takes 8 }))
        [.addTask ⟨5, []⟩] = some s ∧ s.tasks = [⟨5, []⟩] := ⟨_, rfl, rfl⟩
  obtain ⟨later, t, -, hr', hsame, hd⟩ := pool_can_finish (tcpCallPolicies helloHandler helloHandler)
    (fun _ _ w => w) false _ (Fin.last 3) [.addTask ⟨5, []⟩] s ⟨trivial, fun _ _ => trivial⟩ hr
  exact ⟨s, later, t, hr, hr', hsame.trans htasks, hd⟩

end Threadpool

end SimpleServ.RequestProcessing
