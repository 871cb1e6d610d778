import Mathlib.Logic.Function.Basic
import SimpleServ.Lib.Transition
import SimpleServ.Utility.LockFreeQueue

/-
  `LockFreeQueue` shared by one pushing thread and any number of popping threads.

  Every atomic load, store, compare-exchange and slot access is one step, and a run is any
  sequence of steps (`Event`): the steps of `push` are load, write, store, count; those of
  `pop` are load, compare, exchange, read, count. The element of the `k`-th push is `k`. A
  slot that an element was moved out of keeps the element (`kept`: a type whose move is a
  copy) or is `none`. `stored` and `claimed` count the stores of the tail and the
  compare-exchanges that succeeded; `handed` lists what pops have returned.

  The compare-exchange asks for the head's index alone. When the other threads have gone
  round the ring meanwhile, it succeeds on an empty queue (`overtaken`). And a claimed slot
  is read after the head has moved on, so the pusher may have come round to it. In runs in
  which neither happens (`Timely`), no more is claimed than was stored and no element is
  handed out twice (`run_timely`). A push to a full queue is no exception: it loses elements,
  but what is read is then a later lap of the ring.
-/

namespace SimpleServ.Utility.SharedQueue

open SimpleServ.Lib SimpleServ.Utility.LockFreeQueue

/-- Where the pushing thread is, with its local `tail`. -/
inductive PushPc (capacity : Nat) where
  | idle
  | loaded (tail : Fin capacity)
  | written (tail : Fin capacity)
  | stored
  deriving DecidableEq

/-- Where a popping thread is, with its local `head` or `result`. -/
inductive PopPc (capacity : Nat) where
  | idle
  | loaded (head : Fin capacity)
  | checked (head : Fin capacity)
  | claimed (head : Fin capacity)
  | taken (result : Option Nat)
  deriving DecidableEq

structure State (ι : Type) (capacity : Nat) where
  queue : LockFreeQueue Nat capacity
  pusher : PushPc capacity
  pops : ι → PopPc capacity
  stored : Nat
  claimed : Nat
  handed : List Nat

/-- The thread that takes its next step; a compare-exchange may fail for no reason. -/
inductive Event (ι : Type) where
  | push
  | pop (i : ι) (spurious : Bool)
  deriving DecidableEq

section Model

variable {ι : Type} {capacity : Nat}

def init (ι : Type) {capacity : Nat} (h : 0 < capacity) : State ι capacity where
  queue := new Nat h
  pusher := .idle
  pops := fun _ => .idle
  stored := 0
  claimed := 0
  handed := []

def slot (q : LockFreeQueue Nat capacity) (i : Fin capacity) : Option Nat := q.arr_.get i

def setSlot (q : LockFreeQueue Nat capacity) (i : Fin capacity) (x : Option Nat) :
    LockFreeQueue Nat capacity := { q with arr_ := q.arr_.set i x i.isLt }

/-- The next step of `push`. -/
def stepPush (s : State ι capacity) : State ι capacity :=
  match s.pusher with
  | .idle => { s with pusher := .loaded ⟨s.queue.tail_, s.queue.tail_lt⟩ }
  | .loaded tail => { s with queue := setSlot s.queue tail (some s.stored), pusher := .written tail }
  | .written tail =>
    { s with
      queue := { s.queue with tail_ := next capacity tail tail.isLt, tail_lt := next_lt tail.isLt }
      pusher := .stored
      stored := s.stored + 1 }
  | .stored => { s with queue := { s.queue with size_ := s.queue.size_ + 1 }, pusher := .idle }

variable [DecidableEq ι]

def setPop (s : State ι capacity) (i : ι) (pc : PopPc capacity) : State ι capacity :=
  { s with pops := Function.update s.pops i pc }

/-- The next step of `pop` in the thread `i`. -/
def stepPop (kept : Bool) (s : State ι capacity) (i : ι) (spurious : Bool) : State ι capacity :=
  match s.pops i with
  | .idle => setPop s i (.loaded ⟨s.queue.head_, s.queue.head_lt⟩)
  | .loaded head => if head = s.queue.tail_ then setPop s i .idle else setPop s i (.checked head)
  | .checked head =>
    if spurious ∨ s.queue.head_ ≠ head then setPop s i .idle
    else
      setPop { s with
        queue := { s.queue with head_ := next capacity head head.isLt, head_lt := next_lt head.isLt }
        claimed := s.claimed + 1 } i (.claimed head)
  | .claimed head =>
    let result := slot s.queue head
    setPop { s with queue := setSlot s.queue head (if kept then result else none) } i (.taken result)
  | .taken result =>
    setPop { s with
      queue := { s.queue with size_ := s.queue.size_ - 1 }
      handed := s.handed ++ result.toList } i .idle

/-- No step ever waits. -/
def step (kept : Bool) (s : State ι capacity) : Event ι → Option (State ι capacity)
  | .push => some (stepPush s)
  | .pop i spurious => some (stepPop kept s i spurious)

/-- The event is not one that goes wrong: a compare-exchange that will succeed finds the queue
    not empty, and the pusher does not write the slot that a pop has claimed and not read. -/
def Timely (s : State ι capacity) : Event ι → Prop
  | .push => ∀ tail, s.pusher = .loaded tail → ∀ i, s.pops i ≠ .claimed tail
  | .pop i spurious => ∀ head, s.pops i = .checked head → s.queue.head_ = head →
      spurious = false → s.queue.empty = false

instance {n : Nat} (s : State (Fin n) capacity) : DecidablePred (Timely s)
  | .push => inferInstanceAs (Decidable (∀ tail, s.pusher = .loaded tail →
      ∀ i, s.pops i ≠ .claimed tail))
  | .pop i spurious => inferInstanceAs (Decidable (∀ head, s.pops i = .checked head →
      s.queue.head_ = head → spurious = false → s.queue.empty = false))

end Model

section Invariant

variable {ι : Type} {capacity : Nat} {s : State ι capacity} {U : Nat} {i j : ι}
  {pc : PopPc capacity}

/-! ## The invariant -/

/-- The thread `i` has claimed the element `t` and not returned it yet. -/
def Holding (s : State ι capacity) (i : ι) (t : Nat) : Prop :=
  (∃ head, s.pops i = .claimed head ∧ slot s.queue head = some t) ∨ s.pops i = .taken (some t)

/-- `U` is the first element that no pop has claimed. It runs ahead of `claimed` when pushes
    to a full queue have lapped the pops. -/
structure InvAt (s : State ι capacity) (U : Nat) : Prop where
  claimed_le : s.claimed ≤ U
  le_stored : U ≤ s.stored
  stored_lt : s.stored < U + capacity
  head_eq : s.queue.head_ = U % capacity
  tail_eq : s.queue.tail_ = s.stored % capacity
  local_tail : ∀ tail, s.pusher = .loaded tail ∨ s.pusher = .written tail → tail.val = s.queue.tail_
  unread : ∀ t (i : Fin capacity), U ≤ t → t < s.stored → i.val = t % capacity →
    slot s.queue i = some t
  writing : ∀ tail, s.pusher = .written tail → slot s.queue tail = some s.stored
  claimed_slot : ∀ i head, s.pops i = .claimed head → ∃ t, slot s.queue head = some t
  holding : ∀ i t, Holding s i t → t < U ∧ t ∉ s.handed
  holding_unique : ∀ i j t, Holding s i t → Holding s j t → i = j
  handed_lt : ∀ t ∈ s.handed, t < U
  handed_nodup : s.handed.Nodup

theorem slot_set_self (q : LockFreeQueue Nat capacity) (i : Fin capacity) (x : Option Nat) :
    slot (setSlot q i x) i = x := Vector.getElem_set_self _

theorem slot_set_ne {q : LockFreeQueue Nat capacity} {i k : Fin capacity} (h : i ≠ k)
    (x : Option Nat) : slot (setSlot q i x) k = slot q k :=
  Vector.getElem_set_ne i.isLt k.isLt fun hv => h (Fin.ext hv)

theorem invAt_init (ι : Type) (h : 0 < capacity) : InvAt (init ι h) 0 where
  claimed_le := Nat.le_refl 0
  le_stored := Nat.le_refl 0
  stored_lt := by
    show 0 < 0 + capacity
    omega
  head_eq := (Nat.zero_mod _).symm
  tail_eq := (Nat.zero_mod _).symm
  local_tail := by
    intro tail ht
    rcases ht with ht | ht <;> cases ht
  unread := by
    intro t i _ ht _
    exact absurd ht (Nat.not_lt_zero t)
  writing := by
    intro tail ht
    cases ht
  claimed_slot := by
    intro i head hp
    cases hp
  holding := by
    intro i t ht
    rcases ht with ⟨head, hp, -⟩ | hp <;> cases hp
  holding_unique := by
    intro i j t ht
    rcases ht with ⟨head, hp, -⟩ | hp <;> cases hp
  handed_lt := by
    intro t ht
    cases ht
  handed_nodup := List.nodup_nil

/-- A claimed slot holds an element that is held by that pop. -/
theorem InvAt.holding_claimed (h : InvAt s U) {head : Fin capacity}
    (hp : s.pops i = .claimed head) : ∃ t, slot s.queue head = some t ∧ Holding s i t := by
  obtain ⟨t, ht⟩ := h.claimed_slot i head hp
  exact ⟨t, ht, Or.inl ⟨head, hp, ht⟩⟩

/-- No two pops have claimed the same slot. -/
theorem InvAt.claimed_unique (h : InvAt s U) {head : Fin capacity}
    (hi : s.pops i = .claimed head) (hj : s.pops j = .claimed head) : i = j := by
  obtain ⟨t, ht, hti⟩ := h.holding_claimed hi
  exact h.holding_unique i j t hti (Or.inl ⟨head, hj, ht⟩)

/-! ## The steps of a push -/

theorem InvAt.load (h : InvAt s U) :
    InvAt { s with pusher := .loaded ⟨s.queue.tail_, s.queue.tail_lt⟩ } U :=
  { h with
    local_tail := by
      intro tail ht
      rcases ht with ht | ht
      · obtain rfl := PushPc.loaded.inj ht
        rfl
      · cases ht
    writing := by
      intro tail ht
      cases ht }

/-- The write of an element into a slot that no pop has still to read. -/
theorem InvAt.write (h : InvAt s U) {tail : Fin capacity} (hp : s.pusher = .loaded tail)
    (hc : ∀ i, s.pops i ≠ .claimed tail) :
    InvAt { s with queue := setSlot s.queue tail (some s.stored), pusher := .written tail } U := by
  have htail : tail.val = s.stored % capacity := (h.local_tail tail (Or.inl hp)).trans h.tail_eq
  have hslot : ∀ {j head}, s.pops j = .claimed head →
      slot (setSlot s.queue tail (some s.stored)) head = slot s.queue head := by
    intro j head hpj
    have hne : tail ≠ head := by
      rintro rfl
      exact hc j hpj
    exact slot_set_ne hne _
  have hcase : ∀ j t, Holding { s with
      queue := setSlot s.queue tail (some s.stored), pusher := .written tail } j t →
      Holding s j t := by
    intro j t ht
    rcases ht with ⟨head, hpj, ht⟩ | hpj
    · exact Or.inl ⟨head, hpj, (hslot hpj).symm.trans ht⟩
    · exact Or.inr hpj
  refine { h with
    local_tail := ?_
    unread := ?_
    writing := ?_
    claimed_slot := ?_
    holding := fun j t ht => h.holding j t (hcase j t ht)
    holding_unique := fun j k t hj hk => h.holding_unique j k t (hcase j t hj) (hcase k t hk) }
  · intro tail' ht
    rcases ht with ht | ht
    · cases ht
    · obtain rfl := PushPc.written.inj ht
      exact h.local_tail tail (Or.inl hp)
  · intro t k hU ht hk
    have hne : tail ≠ k := by
      rintro rfl
      have hlt := h.stored_lt
      have hn := @place_ne capacity t s.stored 0 ht (by omega)
      rw [Nat.zero_add, Nat.zero_add] at hn
      exact hn (hk.symm.trans htail)
    exact (slot_set_ne hne _).trans (h.unread t k hU ht hk)
  · intro tail' ht
    obtain rfl := PushPc.written.inj ht
    exact slot_set_self _ _ _
  · intro j head hpj
    obtain ⟨t, ht⟩ := h.claimed_slot j head hpj
    exact ⟨t, (hslot hpj).trans ht⟩

/-- The store of the tail. When it meets the head, all unread elements are lapped. -/
theorem InvAt.store (h : InvAt s U) {tail : Fin capacity} (hp : s.pusher = .written tail) :
    ∃ U', InvAt { s with
      queue := { s.queue with tail_ := next capacity tail tail.isLt, tail_lt := next_lt tail.isLt }
      pusher := .stored
      stored := s.stored + 1 } U' := by
  have htail : tail.val = s.stored % capacity := (h.local_tail tail (Or.inr hp)).trans h.tail_eq
  have hlt := h.stored_lt
  have hle := h.le_stored
  have hpos : 0 < capacity := Nat.zero_lt_of_lt s.queue.head_lt
  obtain ⟨U', hU, hU1, hU2, hmod⟩ : ∃ U', U ≤ U' ∧ U' ≤ s.stored + 1 ∧
      s.stored + 1 < U' + capacity ∧ U % capacity = U' % capacity := by
    rcases Nat.lt_or_ge (s.stored + 1) (U + capacity) with hr | hr
    · exact ⟨U, Nat.le_refl U, by omega, hr, rfl⟩
    · exact ⟨U + capacity, by omega, by omega, by omega, (Nat.add_mod_right U capacity).symm⟩
  refine ⟨U', { h with
    claimed_le := Nat.le_trans h.claimed_le hU
    le_stored := hU1
    stored_lt := hU2
    head_eq := h.head_eq.trans hmod
    tail_eq := ?_
    local_tail := ?_
    unread := ?_
    writing := ?_
    holding := fun j t ht => ⟨Nat.lt_of_lt_of_le (h.holding j t ht).1 hU, (h.holding j t ht).2⟩
    handed_lt := fun t ht => Nat.lt_of_lt_of_le (h.handed_lt t ht) hU }⟩
  · show next capacity tail tail.isLt = (s.stored + 1) % capacity
    rw [next_eq, htail, Nat.mod_add_mod]
  · intro tail' ht
    rcases ht with ht | ht <;> cases ht
  · intro t k ht hts hk
    rcases Nat.lt_or_eq_of_le (Nat.lt_succ_iff.mp hts) with hts | rfl
    · exact h.unread t k (Nat.le_trans hU ht) hts hk
    · obtain rfl : tail = k := Fin.ext (htail.trans hk.symm)
      exact h.writing tail hp
  · intro tail' ht
    cases ht

theorem InvAt.count (h : InvAt s U) (n : UInt32) :
    InvAt { s with queue := { s.queue with size_ := n }, pusher := .idle } U :=
  { h with
    local_tail := by
      intro tail ht
      rcases ht with ht | ht <;> cases ht
    writing := by
      intro tail ht
      cases ht }

theorem inv_stepPush (h : InvAt s U) (hc : ∀ tail, s.pusher = .loaded tail →
    ∀ i, s.pops i ≠ .claimed tail) : ∃ U', InvAt (stepPush s) U' := by
  unfold stepPush
  cases hp : s.pusher with
  | idle => exact ⟨U, h.load⟩
  | loaded tail => exact ⟨U, h.write hp (hc tail hp)⟩
  | written tail => exact h.store hp
  | stored => exact ⟨U, h.count _⟩

/-! ## The steps of a pop -/

variable [DecidableEq ι]

theorem setPop_ne (hj : j ≠ i) : (setPop s i pc).pops j = s.pops j :=
  Function.update_of_ne hj _ _

theorem setPop_self : (setPop s i pc).pops i = pc := Function.update_self _ _ _

/-- A place at which a thread has claimed nothing. -/
def Away : PopPc capacity → Prop
  | .idle | .loaded _ | .checked _ => True
  | .claimed _ | .taken _ => False

theorem holding_of_away (hpc : Away pc) {t : Nat} (h : Holding (setPop s i pc) j t) :
    j ≠ i ∧ Holding s j t := by
  have hj : j ≠ i := by
    rintro rfl
    rcases h with ⟨head, hp, -⟩ | hp
    · rw [setPop_self.symm.trans hp] at hpc
      exact hpc
    · rw [setPop_self.symm.trans hp] at hpc
      exact hpc
  refine ⟨hj, ?_⟩
  unfold Holding at h ⊢
  rwa [setPop_ne hj] at h

/-- A pop that goes to a place where it has claimed nothing. -/
theorem InvAt.away (h : InvAt s U) (i : ι) (hpc : Away pc) : InvAt (setPop s i pc) U :=
  { h with
    claimed_slot := by
      intro j head hp
      by_cases hj : j = i
      · subst hj
        rw [setPop_self.symm.trans hp] at hpc
        exact hpc.elim
      · exact h.claimed_slot j head ((setPop_ne hj).symm.trans hp)
    holding := fun j t ht => h.holding j t (holding_of_away hpc ht).2
    holding_unique := fun j k t hj hk =>
      h.holding_unique j k t (holding_of_away hpc hj).2 (holding_of_away hpc hk).2 }

/-- The compare-exchange that succeeds on a queue that is not empty. -/
theorem InvAt.claim (h : InvAt s U) {head : Fin capacity} (hp : s.pops i = .checked head)
    (hh : s.queue.head_ = head) (hne : s.queue.empty = false) :
    InvAt (setPop { s with
      queue := { s.queue with head_ := next capacity head head.isLt, head_lt := next_lt head.isLt }
      claimed := s.claimed + 1 } i (.claimed head)) (U + 1) := by
  have hU : U < s.stored := by
    refine Nat.lt_of_le_of_ne h.le_stored fun he => ?_
    rw [empty, beq_eq_false_iff_ne, h.head_eq, h.tail_eq, he] at hne
    exact hne rfl
  have hslot : slot s.queue head = some U :=
    h.unread U head (Nat.le_refl U) hU (hh.symm.trans h.head_eq)
  have hcase : ∀ j t, Holding (setPop { s with
      queue := { s.queue with head_ := next capacity head head.isLt, head_lt := next_lt head.isLt }
      claimed := s.claimed + 1 } i (.claimed head)) j t →
      (j = i ∧ t = U) ∨ (j ≠ i ∧ Holding s j t) := by
    intro j t ht
    by_cases hj : j = i
    · subst hj
      left
      rcases ht with ⟨head', hp', ht⟩ | hp'
      · obtain rfl := PopPc.claimed.inj (setPop_self.symm.trans hp')
        exact ⟨rfl, Option.some.inj (ht.symm.trans hslot)⟩
      · exact absurd (setPop_self.symm.trans hp') (by simp)
    · right
      refine ⟨hj, ?_⟩
      unfold Holding at ht ⊢
      rwa [setPop_ne hj] at ht
  have hlt : ∀ t ∈ s.handed, t < U := h.handed_lt
  refine { h with
    claimed_le := Nat.succ_le_succ h.claimed_le
    le_stored := hU
    stored_lt := by
      have := h.stored_lt
      show s.stored < U + 1 + capacity
      omega
    head_eq := ?_
    unread := fun t k ht => h.unread t k (by omega)
    claimed_slot := ?_
    holding := ?_
    holding_unique := ?_
    handed_lt := fun t ht => Nat.lt_succ_of_lt (hlt t ht) }
  · show next capacity head head.isLt = (U + 1) % capacity
    rw [next_eq, ← hh, h.head_eq, Nat.mod_add_mod]
  · intro j head' hp'
    by_cases hj : j = i
    · subst hj
      obtain rfl := PopPc.claimed.inj (setPop_self.symm.trans hp')
      exact ⟨U, hslot⟩
    · exact h.claimed_slot j head' ((setPop_ne hj).symm.trans hp')
  · intro j t ht
    rcases hcase j t ht with ⟨-, rfl⟩ | ⟨-, ht⟩
    · exact ⟨Nat.lt_succ_self t, fun hm => absurd (hlt t hm) (Nat.lt_irrefl t)⟩
    · exact ⟨Nat.lt_succ_of_lt (h.holding j t ht).1, (h.holding j t ht).2⟩
  · intro j k t hj hk
    -- the new element is above all that were claimed before
    rcases hcase j t hj with ⟨hji, htU⟩ | ⟨-, hj'⟩
    · rcases hcase k t hk with ⟨hki, -⟩ | ⟨-, hk'⟩
      · rw [hji, hki]
      · have := (h.holding k t hk').1
        omega
    · rcases hcase k t hk with ⟨-, htU⟩ | ⟨-, hk'⟩
      · have := (h.holding j t hj').1
        omega
      · exact h.holding_unique j k t hj' hk'

/-- The read of a claimed slot, whatever it leaves there. -/
theorem InvAt.read (h : InvAt s U) {head : Fin capacity} (hp : s.pops i = .claimed head)
    (x : Option Nat) :
    InvAt (setPop { s with queue := setSlot s.queue head x } i (.taken (slot s.queue head))) U := by
  obtain ⟨t, ht, hold⟩ := h.holding_claimed hp
  have htU := (h.holding i t hold).1
  have hother : ∀ {j head'}, j ≠ i → s.pops j = .claimed head' → head ≠ head' := by
    intro j head' hj hpj he
    subst he
    exact hj (h.claimed_unique hpj hp)
  have hcase : ∀ j u, Holding (setPop { s with queue := setSlot s.queue head x } i
      (.taken (slot s.queue head))) j u → Holding s j u := by
    intro j u hu
    by_cases hj : j = i
    · subst hj
      rcases hu with ⟨head', hp', -⟩ | hp'
      · exact absurd (setPop_self.symm.trans hp') (by simp)
      · have hs := PopPc.taken.inj (setPop_self.symm.trans hp')
        exact Or.inl ⟨head, hp, hs⟩
    · rcases hu with ⟨head', hp', hs⟩ | hp'
      · rw [setPop_ne hj] at hp'
        exact Or.inl ⟨head', hp', (slot_set_ne (hother hj hp') x).symm.trans hs⟩
      · exact Or.inr ((setPop_ne hj).symm.trans hp')
  refine { h with
    unread := ?_
    writing := ?_
    claimed_slot := ?_
    holding := fun j u hu => h.holding j u (hcase j u hu)
    holding_unique := fun j k u hj hk => h.holding_unique j k u (hcase j u hj) (hcase k u hk) }
  · intro u k hu hus hk
    have hs := h.unread u k hu hus hk
    have hne : head ≠ k := by
      rintro rfl
      have := Option.some.inj (ht.symm.trans hs)
      omega
    exact (slot_set_ne hne x).trans hs
  · intro tail htail
    have hs := h.writing tail htail
    have hle := h.le_stored
    have hne : head ≠ tail := by
      rintro rfl
      have := Option.some.inj (ht.symm.trans hs)
      omega
    exact (slot_set_ne hne x).trans hs
  · intro j head' hp'
    by_cases hj : j = i
    · subst hj
      exact absurd (setPop_self.symm.trans hp') (by simp)
    · have hpj := (setPop_ne hj).symm.trans hp'
      obtain ⟨u, hu⟩ := h.claimed_slot j head' hpj
      exact ⟨u, (slot_set_ne (hother hj hpj) x).trans hu⟩

/-- The last step of a pop, which returns what it has read. -/
theorem InvAt.hand (h : InvAt s U) {result : Option Nat} (hp : s.pops i = .taken result)
    (n : UInt32) :
    InvAt (setPop { s with
      queue := { s.queue with size_ := n }
      handed := s.handed ++ result.toList } i .idle) U := by
  have haway : Away (PopPc.idle : PopPc capacity) := trivial
  have hcase : ∀ j t, Holding (setPop { s with
      queue := { s.queue with size_ := n }
      handed := s.handed ++ result.toList } i .idle) j t → j ≠ i ∧ Holding s j t :=
    fun j t ht => holding_of_away haway ht
  -- what is returned was held by this pop alone
  have hres : ∀ t ∈ result.toList, Holding s i t := by
    intro t ht
    rw [Option.mem_toList] at ht
    exact Or.inr (hp.trans (congrArg PopPc.taken ht))
  have hd := h.away i haway
  refine { hd with
    holding := ?_
    holding_unique := fun j k t hj hk => h.holding_unique j k t (hcase j t hj).2 (hcase k t hk).2
    handed_lt := ?_
    handed_nodup := ?_ }
  · intro j t ht
    obtain ⟨hj, ht⟩ := hcase j t ht
    refine ⟨(h.holding j t ht).1, fun hm => ?_⟩
    rcases List.mem_append.mp hm with hm | hm
    · exact (h.holding j t ht).2 hm
    · exact hj (h.holding_unique j i t ht (hres t hm))
  · intro t ht
    rcases List.mem_append.mp ht with ht | ht
    · exact h.handed_lt t ht
    · exact (h.holding i t (hres t ht)).1
  · refine List.Nodup.append h.handed_nodup ?_ ?_
    · cases result with
      | none => exact List.nodup_nil
      | some t => exact List.nodup_singleton t
    · intro t hm ht
      exact (h.holding i t (hres t ht)).2 hm

/-! ## Runs -/

theorem inv_stepPop (h : InvAt s U) (kept : Bool) {spurious : Bool}
    (hc : ∀ head, s.pops i = .checked head → s.queue.head_ = head → spurious = false →
      s.queue.empty = false) : ∃ U', InvAt (stepPop kept s i spurious) U' := by
  unfold stepPop
  cases hp : s.pops i with
  | idle => exact ⟨U, h.away i trivial⟩
  | loaded head =>
    dsimp only
    split
    · exact ⟨U, h.away i trivial⟩
    · exact ⟨U, h.away i trivial⟩
  | checked head =>
    dsimp only
    split
    · exact ⟨U, h.away i trivial⟩
    · next hn =>
      rw [not_or, not_not, Bool.not_eq_true] at hn
      exact ⟨U + 1, h.claim hp hn.2 (hc head hp hn.2 hn.1)⟩
  | claimed head => exact ⟨U, h.read hp _⟩
  | taken result => exact ⟨U, h.hand hp _⟩

theorem inv_step {kept : Bool} {e : Event ι} {t : State ι capacity} (h : ∃ U, InvAt s U)
    (hc : Timely s e) (ht : step kept s e = some t) : ∃ U, InvAt t U := by
  obtain ⟨U, h⟩ := h
  cases e with
  | push =>
    obtain rfl := Option.some.inj ht
    exact inv_stepPush h hc
  | pop i spurious =>
    obtain rfl := Option.some.inj ht
    exact inv_stepPop h kept hc

/-- **In a run in which every step is timely no more is claimed than was stored, and no element
    is handed out twice.** -/
theorem run_timely (hcap : 0 < capacity) (kept : Bool) (events : List (Event ι))
    (s : State ι capacity) (hc : StepsMeet Timely (step kept) (init ι hcap) events)
    (hr : run (step kept) (init ι hcap) events = some s) :
    s.claimed ≤ s.stored ∧ s.handed.Nodup := by
  have hi : ∃ U, InvAt s U := run_invariant (fun s e t => inv_step) ⟨0, invAt_init ι hcap⟩ hc hr
  obtain ⟨U, h⟩ := hi
  exact ⟨Nat.le_trans h.claimed_le h.le_stored, h.handed_nodup⟩

/-- Two pushes and three pops of two threads, step by step in turns, once round a ring of two
    slots. The second pop loses its compare-exchange to the first, and the third pop finds the
    queue empty. -/
def inTurns : List (Event (Fin 2)) :=
  [.push, .pop 0 false, .pop 1 false, .push, .push, .pop 0 false, .push, .pop 1 false,
    .pop 0 false, .push, .pop 1 false, .pop 0 false, .push, .pop 1 false, .push, .pop 1 false,
    .pop 0 false, .pop 1 false, .push, .pop 0 false, .pop 1 false, .pop 0 false, .pop 1 false]

theorem run_timely_inTurns : ∃ s : State (Fin 2) 2,
    run (step false) (init (Fin 2) (by decide)) inTurns = some s ∧
      s.stored = 2 ∧ s.claimed = 2 ∧ s.handed = [0, 1] ∧
      s.claimed ≤ s.stored ∧ s.handed.Nodup := by
  have hc : StepsMeet Timely (step false) (init (Fin 2) (show 0 < 2 by decide)) inTurns := by
    decide
  exact ⟨_, rfl, rfl, rfl, rfl, run_timely (by decide) false inTurns _ hc rfl⟩

/-! ## Calls that nothing interrupts -/

/-- The four steps of a push one after another are the push of the sequential queue. -/
theorem push_steps (kept : Bool) (hp : s.pusher = .idle) :
    run (step kept) s [.push, .push, .push, .push] =
      some { s with queue := (s.queue.push s.stored).2, stored := s.stored + 1 } := by
  obtain ⟨q, pusher, pops, stored, claimed, handed⟩ := s
  subst hp
  rfl

/-- The five steps of a pop one after another, on a queue that is not empty. -/
theorem pop_steps (hi : s.pops i = .idle) (hne : s.queue.head_ ≠ s.queue.tail_) :
    run (step false) s (List.replicate 5 (.pop i false)) =
      some { s with
        queue := (s.queue.pop false).2
        claimed := s.claimed + 1
        handed := s.handed ++ (slot s.queue ⟨s.queue.head_, s.queue.head_lt⟩).toList } := by
  have hpops : Function.update s.pops i PopPc.idle = s.pops := by
    rw [Function.update_eq_self_iff]
    exact hi.symm
  rw [pop_of_ne hne]
  simp [run, List.replicate, step, stepPop, setPop, hi, hne, hpops, setSlot, slot]

/-- The load and the compare of a pop, on a queue that is not empty. -/
theorem check_steps (kept : Bool) (hi : s.pops i = .idle)
    (hne : s.queue.head_ ≠ s.queue.tail_) :
    run (step kept) s [.pop i false, .pop i false] =
      some (setPop s i (.checked ⟨s.queue.head_, s.queue.head_lt⟩)) := by
  simp [run, step, stepPop, setPop, hi, hne]

/-! ## Going round the ring under a waiting pop -/

/-- Every push has been popped, `n` of them. Pop `i` has loaded and compared the first head,
    pop `j` is idle. -/
structure Drained (i j : ι) (n : Nat) (s : State ι capacity) : Prop where
  pusher_eq : s.pusher = .idle
  stalled : ∃ head, s.pops i = .checked head ∧ head.val = 0
  other : s.pops j = .idle
  head_eq : s.queue.head_ = n % capacity
  tail_eq : s.queue.tail_ = n % capacity
  stored_eq : s.stored = n
  claimed_eq : s.claimed = n

/-- A push and a pop by `j`. -/
theorem Drained.round {n : Nat} (h : Drained i j n s) (hcap : 1 < capacity) :
    ∃ s', run (step false) s ([.push, .push, .push, .push] ++ List.replicate 5 (.pop j false)) =
      some s' ∧ Drained i j (n + 1) s' := by
  have hsucc : n % capacity ≠ (n + 1) % capacity := by
    have hn := @place_ne capacity 0 1 n (by omega) (by omega)
    rwa [Nat.add_zero] at hn
  have htail : (s.queue.push s.stored).2.tail_ = (n + 1) % capacity := by
    rw [push_tail, next_eq, h.tail_eq, Nat.mod_add_mod]
  have hhead : (s.queue.push s.stored).2.head_ = n % capacity := h.head_eq
  have hne : (s.queue.push s.stored).2.head_ ≠ (s.queue.push s.stored).2.tail_ := by
    rw [htail, hhead]
    exact hsucc
  refine ⟨_, run_append (push_steps false h.pusher_eq) (pop_steps h.other hne),
    h.pusher_eq, h.stalled, h.other, ?_, ?_, congrArg (· + 1) h.stored_eq,
    congrArg (· + 1) h.claimed_eq⟩
  · rw [pop_of_ne hne]
    show next capacity _ _ = (n + 1) % capacity
    rw [next_eq, hhead, Nat.mod_add_mod]
  · rw [pop_of_ne hne]
    exact htail

/-- Any number of rounds. -/
theorem Drained.rounds {n : Nat} (h : Drained i j n s) (hcap : 1 < capacity) (k : Nat) :
    ∃ events s', run (step false) s events = some s' ∧ Drained i j (n + k) s' := by
  induction k with
  | zero => exact ⟨[], s, rfl, h⟩
  | succ k ih =>
    obtain ⟨events, t, ht, hd⟩ := ih
    obtain ⟨u, hu, hd'⟩ := hd.round hcap
    exact ⟨_, u, run_append ht hu, hd'⟩

/-- One push, which pop `i` sees and pop `j` takes. -/
theorem drained_one (hij : i ≠ j) (hcap : 1 < capacity) (hpos : 0 < capacity) :
    ∃ events s', run (step false) (init ι hpos) events = some s' ∧ Drained i j 1 s' := by
  have hpush := push_steps false (s := init ι hpos) rfl
  set s1 : State ι capacity :=
    { init ι hpos with queue := ((new Nat hpos).push 0).2, stored := 0 + 1 } with hs1
  have htail : s1.queue.tail_ = 1 % capacity := by
    show next capacity 0 hpos = _
    rw [next_eq]
  have hne : s1.queue.head_ ≠ s1.queue.tail_ := by
    rw [htail, Nat.mod_eq_of_lt hcap]
    exact Nat.zero_ne_one
  have hcheck := check_steps false (s := s1) (i := i) rfl hne
  set s2 := setPop s1 i (.checked ⟨s1.queue.head_, s1.queue.head_lt⟩) with hs2
  have hj : s2.pops j = .idle := setPop_ne (Ne.symm hij)
  have hpop := pop_steps (s := s2) hj hne
  refine ⟨_, _, run_append (run_append hpush hcheck) hpop, rfl, ⟨_, setPop_self, rfl⟩, hj, ?_, ?_,
    rfl, rfl⟩
  · rw [pop_of_ne (q := s2.queue) hne]
    show next capacity 0 hpos = _
    rw [next_eq]
  · rw [pop_of_ne (q := s2.queue) hne]
    exact htail

/-- **The other threads go round the ring between the compare and the exchange of a pop, and
    it claims an element of an empty queue.** -/
theorem overtaken (hij : i ≠ j) (hcap : 1 < capacity) (hpos : 0 < capacity) :
    ∃ events s, run (step false) (init ι hpos) events = some s ∧ s.stored < s.claimed := by
  obtain ⟨events, s, hs, hd⟩ := drained_one hij hcap hpos
  obtain ⟨later, t, ht, hd⟩ := hd.rounds hcap (capacity - 1)
  have hn : 1 + (capacity - 1) = capacity := by omega
  rw [hn] at hd
  obtain ⟨head, hp, hz⟩ := hd.stalled
  -- `capacity` elements later the head's index is again the one that was loaded
  have hh : t.queue.head_ = head := by rw [hd.head_eq, Nat.mod_self, hz]
  have hlast : run (step false) t [.pop i false] = some (stepPop false t i false) := rfl
  refine ⟨_, _, run_append (run_append hs ht) hlast, ?_⟩
  have hstep : (stepPop false t i false).claimed = t.claimed + 1 ∧
      (stepPop false t i false).stored = t.stored := by
    simp [stepPop, hp, hh, setPop]
  rw [hstep.1, hstep.2, hd.stored_eq, hd.claimed_eq]
  exact Nat.lt_succ_self capacity

end Invariant

theorem not_run_safe : ¬ ∀ (kept : Bool) (events : List (Event (Fin 4))) (s : State (Fin 4) 100),
    run (step kept) (init (Fin 4) (by decide)) events = some s →
      s.claimed ≤ s.stored ∧ s.handed.Nodup := by
  intro h
  obtain ⟨events, s, hs, hlt⟩ := overtaken (show (0 : Fin 4) ≠ 1 by decide)
    (show 1 < 100 by decide) (by decide)
  have hle := (h false events s hs).1
  omega

end SimpleServ.Utility.SharedQueue
