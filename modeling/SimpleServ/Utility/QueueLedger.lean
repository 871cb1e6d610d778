import Mathlib.Tactic.FinCases
import SimpleServ.Utility.SharedQueue

/-
  What becomes of each element of the shared `LockFreeQueue`.

  `Timely` runs hand nothing out twice, but a push to a full queue still loses elements. In
  runs in which no push stores its tail on a full queue either (`Orderly`), the first element
  that no pop has claimed is the one of number `claimed`, and each element before it has been
  handed out or is held by a pop that will hand it out (`Ledger`). So every element that was
  stored is at one place: in the ring, with one pop, or handed out.
-/

namespace SimpleServ.Utility.SharedQueue

open SimpleServ.Lib SimpleServ.Utility.LockFreeQueue

variable {ι : Type} {capacity : Nat} {s t : State ι capacity} {U : Nat} {i j : ι}
  {pc : PopPc capacity}

/-- The event is timely, and a push that stores its tail finds the queue not full. -/
def Orderly (s : State ι capacity) (e : Event ι) : Prop :=
  Timely s e ∧ (e = .push → ∀ tail, s.pusher = .written tail → s.queue.full = false)

instance {n : Nat} (s : State (Fin n) capacity) : DecidablePred (Orderly s) :=
  fun _ => inferInstanceAs (Decidable (_ ∧ _))

/-! ## Counting -/

/-- What `stored` and `claimed` say of the two indices. -/
structure Counted (s : State ι capacity) : Prop where
  claimed_le : s.claimed ≤ s.stored
  stored_lt : s.stored < s.claimed + capacity
  head_eq : s.queue.head_ = s.claimed % capacity
  tail_eq : s.queue.tail_ = s.stored % capacity

theorem counted_init (ι : Type) (h : 0 < capacity) : Counted (init ι h) where
  claimed_le := Nat.le_refl 0
  stored_lt := by
    show 0 < 0 + capacity
    omega
  head_eq := (Nat.zero_mod _).symm
  tail_eq := (Nat.zero_mod _).symm

/-- The counts leave no other place for the first unclaimed element. -/
theorem InvAt.claimed_eq (h : InvAt s U) (hc : Counted s) : U = s.claimed := by
  have hle := h.le_stored
  have hlt := h.stored_lt
  have hle' := hc.claimed_le
  have hlt' := hc.stored_lt
  have hmod : U % capacity = s.claimed % capacity := h.head_eq.symm.trans hc.head_eq
  rcases Nat.lt_trichotomy U s.claimed with hU | hU | hU
  · have hn := @place_ne capacity U s.claimed 0 hU (by omega)
    rw [Nat.zero_add, Nat.zero_add] at hn
    exact absurd hmod hn
  · exact hU
  · have hn := @place_ne capacity s.claimed U 0 hU (by omega)
    rw [Nat.zero_add, Nat.zero_add] at hn
    exact absurd hmod.symm hn

/-- A step that moves neither index. -/
theorem Counted.keep (h : Counted s) (hs : t.stored = s.stored) (hc : t.claimed = s.claimed)
    (hh : t.queue.head_ = s.queue.head_) (ht : t.queue.tail_ = s.queue.tail_) : Counted t := by
  obtain ⟨h1, h2, h3, h4⟩ := h
  exact ⟨by rwa [hs, hc], by rwa [hs, hc], by rw [hh, h3, hc], by rw [ht, h4, hs]⟩

/-- The store of the tail on a queue with room. -/
theorem Counted.store (h : Counted s) {tail : Fin capacity} (htail : tail.val = s.queue.tail_)
    (hf : s.queue.full = false) :
    Counted { s with
      queue := { s.queue with tail_ := next capacity tail tail.isLt, tail_lt := next_lt tail.isLt }
      pusher := .stored
      stored := s.stored + 1 } where
  claimed_le := Nat.le_succ_of_le h.claimed_le
  stored_lt := by
    refine Nat.lt_of_le_of_ne h.stored_lt fun he => ?_
    rw [full, beq_eq_false_iff_ne, next_eq, h.tail_eq, h.head_eq, Nat.mod_add_mod] at hf
    rw [show s.stored + 1 = s.claimed + capacity from he, Nat.add_mod_right] at hf
    exact hf rfl
  head_eq := h.head_eq
  tail_eq := by
    show next capacity tail tail.isLt = (s.stored + 1) % capacity
    rw [next_eq, htail, h.tail_eq, Nat.mod_add_mod]

/-! ## The steps of a push -/

/-- Each element before `claimed` is with a pop or handed out, and no pop comes back with a
    slot that nothing was in. -/
structure Ledger (s : State ι capacity) : Prop where
  inv : InvAt s s.claimed
  counted : Counted s
  accounted : ∀ k < s.claimed, k ∈ s.handed ∨ ∃ i, Holding s i k
  taken_some : ∀ i, s.pops i ≠ .taken none

theorem ledger_init (ι : Type) (h : 0 < capacity) : Ledger (init ι h) where
  inv := invAt_init ι h
  counted := counted_init ι h
  accounted := fun k hk => absurd hk (Nat.not_lt_zero k)
  taken_some := nofun

/-- A pop goes on holding what it holds where its slot is left alone. -/
theorem Holding.keep {k : Nat} (h : Holding s j k) (hp : t.pops j = s.pops j)
    (hslot : ∀ head, s.pops j = .claimed head → slot t.queue head = slot s.queue head) :
    Holding t j k := by
  rcases h with ⟨head, hc, hs⟩ | hc
  · exact .inl ⟨head, hp.trans hc, (hslot head hc).trans hs⟩
  · exact .inr (hp.trans hc)

theorem Holding.not_away {k : Nat} (h : Holding s i k) : ¬ Away (s.pops i) := by
  rcases h with ⟨head, hc, -⟩ | hc
  · rw [hc]
    exact id
  · rw [hc]
    exact id

theorem holding_stepPush (hc : ∀ tail, s.pusher = .loaded tail → ∀ i, s.pops i ≠ .claimed tail)
    {k : Nat} (h : Holding s j k) : Holding (stepPush s) j k := by
  unfold stepPush
  cases hp : s.pusher with
  | idle => exact h.keep rfl fun _ _ => rfl
  | loaded tail =>
    refine h.keep rfl fun head hj => slot_set_ne ?_ _
    rintro rfl
    exact hc tail hp j hj
  | written tail => exact h.keep rfl fun _ _ => rfl
  | stored => exact h.keep rfl fun _ _ => rfl

theorem counted_stepPush (h : Counted s) (hi : InvAt s U)
    (hf : ∀ tail, s.pusher = .written tail → s.queue.full = false) : Counted (stepPush s) := by
  unfold stepPush
  cases hp : s.pusher with
  | idle => exact h.keep rfl rfl rfl rfl
  | loaded tail => exact h.keep rfl rfl rfl rfl
  | written tail => exact h.store (hi.local_tail tail (.inr hp)) (hf tail hp)
  | stored => exact h.keep rfl rfl rfl rfl

/-- A push claims nothing, hands nothing out and moves no pop. -/
theorem stepPush_pops (s : State ι capacity) : (stepPush s).claimed = s.claimed ∧
    (stepPush s).handed = s.handed ∧ (stepPush s).pops = s.pops := by
  unfold stepPush
  split <;> exact ⟨rfl, rfl, rfl⟩

theorem Ledger.push (h : Ledger s) (hc : Orderly s .push) : Ledger (stepPush s) := by
  obtain ⟨hclaimed, hhanded, hpops⟩ := stepPush_pops s
  have hcount := counted_stepPush h.counted h.inv (hc.2 rfl)
  obtain ⟨U, hU⟩ := inv_stepPush h.inv hc.1
  refine ⟨hU.claimed_eq hcount ▸ hU, hcount, fun k hk => ?_, fun i => hpops ▸ h.taken_some i⟩
  rw [hclaimed] at hk
  rw [hhanded]
  exact (h.accounted k hk).imp_right fun ⟨i, hi⟩ => ⟨i, holding_stepPush hc.1 hi⟩

/-! ## The steps of a pop -/

variable [DecidableEq ι]

/-- The compare-exchange that succeeds on a queue that is not empty. -/
theorem Counted.claim (h : Counted s) {head : Fin capacity} (hh : s.queue.head_ = head)
    (hne : s.queue.empty = false) :
    Counted (setPop { s with
      queue := { s.queue with head_ := next capacity head head.isLt, head_lt := next_lt head.isLt }
      claimed := s.claimed + 1 } i (.claimed head)) where
  claimed_le := by
    refine Nat.lt_of_le_of_ne h.claimed_le fun he => ?_
    rw [empty, beq_eq_false_iff_ne, h.head_eq, h.tail_eq, he] at hne
    exact hne rfl
  stored_lt := by
    have := h.stored_lt
    show s.stored < s.claimed + 1 + capacity
    omega
  head_eq := by
    show next capacity head head.isLt = (s.claimed + 1) % capacity
    rw [next_eq, ← hh, h.head_eq, Nat.mod_add_mod]
  tail_eq := h.tail_eq

/-- A pop that goes to a place where it has claimed nothing, and has held nothing before. -/
theorem Ledger.away (h : Ledger s) (hs : Away (s.pops i)) (hpc : Away pc) :
    Ledger (setPop s i pc) where
  inv := h.inv.away i hpc
  counted := h.counted.keep rfl rfl rfl rfl
  accounted := by
    intro k hk
    refine (h.accounted k hk).imp_right ?_
    rintro ⟨j, hj⟩
    have hji : j ≠ i := by
      rintro rfl
      exact hj.not_away hs
    exact ⟨j, hj.keep (setPop_ne hji) fun _ _ => rfl⟩
  taken_some := by
    intro j hj
    by_cases hji : j = i
    · subst hji
      rw [setPop_self.symm.trans hj] at hpc
      exact hpc
    · exact h.taken_some j ((setPop_ne hji).symm.trans hj)

/-- The compare-exchange that succeeds: the pop claims the element `claimed`. -/
theorem Ledger.claim (h : Ledger s) {head : Fin capacity} (hp : s.pops i = .checked head)
    (hh : s.queue.head_ = head) (hne : s.queue.empty = false) :
    Ledger (setPop { s with
      queue := { s.queue with head_ := next capacity head head.isLt, head_lt := next_lt head.isLt }
      claimed := s.claimed + 1 } i (.claimed head)) := by
  have hcount : Counted _ := h.counted.claim (i := i) hh hne
  have hslot : slot s.queue head = some s.claimed := by
    refine h.inv.unread _ head (Nat.le_refl _) ?_ (hh.symm.trans h.inv.head_eq)
    exact hcount.claimed_le
  refine ⟨h.inv.claim hp hh hne, hcount, fun k hk => ?_, fun j hj => ?_⟩
  · rcases Nat.lt_or_eq_of_le (Nat.lt_succ_iff.mp hk) with hk | rfl
    · refine (h.accounted k hk).imp_right ?_
      rintro ⟨j, hj⟩
      have hji : j ≠ i := by
        rintro rfl
        exact hj.not_away (hp ▸ trivial)
      exact ⟨j, hj.keep (setPop_ne hji) fun _ _ => rfl⟩
    · exact .inr ⟨i, .inl ⟨head, setPop_self, hslot⟩⟩
  · by_cases hji : j = i
    · subst hji
      exact absurd (setPop_self.symm.trans hj) (by simp)
    · exact h.taken_some j ((setPop_ne hji).symm.trans hj)

/-- The read of a claimed slot: the pop keeps what it holds. -/
theorem Ledger.read (h : Ledger s) {head : Fin capacity} (hp : s.pops i = .claimed head)
    (x : Option Nat) :
    Ledger (setPop { s with queue := setSlot s.queue head x } i (.taken (slot s.queue head))) := by
  refine ⟨h.inv.read hp x, h.counted.keep rfl rfl rfl rfl, fun k hk => ?_, fun j hj => ?_⟩
  · refine (h.accounted k hk).imp_right ?_
    rintro ⟨j, hj⟩
    refine ⟨j, ?_⟩
    by_cases hji : j = i
    · subst hji
      rcases hj with ⟨head', hc, hs⟩ | hc
      · obtain rfl := PopPc.claimed.inj (hp.symm.trans hc)
        exact .inr (setPop_self.trans (congrArg PopPc.taken hs))
      · exact absurd (hp.symm.trans hc) (by simp)
    · refine hj.keep (setPop_ne hji) fun head' hc => slot_set_ne ?_ x
      rintro rfl
      exact hji (h.inv.claimed_unique hc hp)
  · by_cases hji : j = i
    · subst hji
      obtain ⟨k, hk⟩ := h.inv.claimed_slot j head hp
      have he := PopPc.taken.inj (setPop_self.symm.trans hj)
      rw [hk] at he
      cases he
    · exact h.taken_some j ((setPop_ne hji).symm.trans hj)

/-- The last step of a pop: what it held is handed out. -/
theorem Ledger.hand (h : Ledger s) {result : Option Nat} (hp : s.pops i = .taken result)
    (n : UInt32) :
    Ledger (setPop { s with
      queue := { s.queue with size_ := n }
      handed := s.handed ++ result.toList } i .idle) := by
  refine ⟨h.inv.hand hp n, h.counted.keep rfl rfl rfl rfl, fun k hk => ?_, fun j hj => ?_⟩
  · show k ∈ s.handed ++ result.toList ∨ _
    rcases h.accounted k hk with hm | ⟨j, hj⟩
    · exact .inl (List.mem_append_left _ hm)
    · by_cases hji : j = i
      · subst hji
        rcases hj with ⟨head, hc, -⟩ | hc
        · exact absurd (hp.symm.trans hc) (by simp)
        · obtain rfl := PopPc.taken.inj (hp.symm.trans hc)
          exact .inl (List.mem_append_right _ (List.mem_singleton_self k))
      · exact .inr ⟨j, hj.keep (setPop_ne hji) fun _ _ => rfl⟩
  · by_cases hji : j = i
    · subst hji
      exact absurd (setPop_self.symm.trans hj) (by simp)
    · exact h.taken_some j ((setPop_ne hji).symm.trans hj)

theorem Ledger.pop (h : Ledger s) (kept : Bool) {spurious : Bool}
    (hc : Timely s (.pop i spurious)) : Ledger (stepPop kept s i spurious) := by
  unfold stepPop
  cases hp : s.pops i with
  | idle => exact h.away (hp ▸ trivial) trivial
  | loaded head =>
    dsimp only
    split
    · exact h.away (hp ▸ trivial) trivial
    · exact h.away (hp ▸ trivial) trivial
  | checked head =>
    dsimp only
    split
    · exact h.away (hp ▸ trivial) trivial
    · next hn =>
      rw [not_or, not_not, Bool.not_eq_true] at hn
      exact h.claim hp hn.2 (hc head hp hn.2 hn.1)
  | claimed head => exact h.read hp _
  | taken result => exact h.hand hp _

theorem Ledger.step (h : Ledger s) {kept : Bool} {e : Event ι} (hc : Orderly s e)
    (ht : step kept s e = some t) : Ledger t := by
  cases e with
  | push =>
    obtain rfl := Option.some.inj ht
    exact h.push hc
  | pop i spurious =>
    obtain rfl := Option.some.inj ht
    exact h.pop kept hc.1

/-! ## Runs -/

/-- **In a run in which every step is orderly each element that was stored is at one place**: it
    waits in its slot, or one pop holds it, or it has been handed out once. When no pop holds
    anything, exactly what was claimed has been handed out. -/
theorem run_orderly (hcap : 0 < capacity) (kept : Bool) (events : List (Event ι))
    (s : State ι capacity) (hc : StepsMeet Orderly (SharedQueue.step kept) (init ι hcap) events)
    (hr : run (SharedQueue.step kept) (init ι hcap) events = some s) :
    (∀ k < s.stored,
      (s.claimed ≤ k ∧ (∃ i : Fin capacity, i.val = k % capacity ∧ slot s.queue i = some k) ∧
        k ∉ s.handed ∧ ∀ i, ¬ Holding s i k) ∨
      (k < s.claimed ∧ k ∉ s.handed ∧ ∃! i, Holding s i k) ∨
      (k < s.claimed ∧ s.handed.count k = 1 ∧ ∀ i, ¬ Holding s i k)) ∧
    ((∀ i, Away (s.pops i)) → s.handed.Perm (List.range s.claimed)) := by
  have h : Ledger s := run_invariant (fun _ _ _ h hc ht => h.step hc ht) (ledger_init ι hcap) hc hr
  constructor
  · intro k hstored
    rcases Nat.lt_or_ge k s.claimed with hk | hk
    · by_cases hm : k ∈ s.handed
      · exact .inr (.inr ⟨hk, List.count_eq_one_of_mem h.inv.handed_nodup hm,
          fun i hi => (h.inv.holding i k hi).2 hm⟩)
      · obtain ⟨i, hi⟩ := (h.accounted k hk).resolve_left hm
        exact .inr (.inl ⟨hk, hm, i, hi, fun j hj => h.inv.holding_unique j i k hj hi⟩)
    · let i : Fin capacity := ⟨k % capacity, Nat.mod_lt k hcap⟩
      refine .inl ⟨hk, ⟨i, rfl, h.inv.unread k i hk hstored rfl⟩, fun hm => ?_, fun i hi => ?_⟩
      · exact absurd (h.inv.handed_lt k hm) (Nat.not_lt.mpr hk)
      · exact absurd (h.inv.holding i k hi).1 (Nat.not_lt.mpr hk)
  · intro ha
    rw [List.perm_ext_iff_of_nodup h.inv.handed_nodup List.nodup_range]
    intro k
    rw [List.mem_range]
    refine ⟨h.inv.handed_lt k, fun hk => (h.accounted k hk).resolve_right ?_⟩
    rintro ⟨i, hi⟩
    exact hi.not_away (ha i)

theorem run_orderly_inTurns : ∃ s : State (Fin 2) 2,
    run (SharedQueue.step false) (init (Fin 2) (by decide)) inTurns = some s ∧
      s.handed = [0, 1] ∧ s.handed.Perm (List.range s.claimed) := by
  have hc : StepsMeet Orderly (SharedQueue.step false) (init (Fin 2) (show 0 < 2 by decide))
      inTurns := by
    decide
  refine ⟨_, rfl, rfl, (run_orderly (by decide) false inTurns _ hc rfl).2 fun i => ?_⟩
  fin_cases i <;> exact trivial

end SimpleServ.Utility.SharedQueue
