import Mathlib.Data.UInt
import SimpleServ.Lib.LappedFifo
import SimpleServ.Lib.Ring

/-
  `LockFreeQueue` (lock_free_queue.hpp), called by one thread at a time.

  A slot that was never written, or that its element was moved out of, is `none`; indices
  carry their bound, and `size_` wraps as the `uint32_t` it is. A weak compare-exchange may
  fail without a rival: `pop` is told so by `spurious`. `push` looks at neither `full` nor
  `size_`.

  `Holds.push`, `Holds.push_full`, `Holds.pop`: the queue is a ring that holds a list, and a
  push to a full one empties it. So a run of calls is an `Account` (`IsAccount.run`):
  `nothing_lost_iff` says in which runs every accepted element comes out again, and
  `returned_sublist_pushed` that nothing else comes out, nor twice or out of order.
-/

namespace SimpleServ.Utility

open SimpleServ.Lib

def SMALL_INTEGER_OPTIMISATION_LIMIT : Nat := 100

structure LockFreeQueue (T : Type) (capacity : Nat) where
  arr_ : Vector (Option T) capacity
  head_ : Nat
  tail_ : Nat
  size_ : UInt32
  head_lt : head_ < capacity
  tail_lt : tail_ < capacity

/-- The table that the constructor fills. -/
def nextArr (capacity : Nat) : Vector Nat capacity :=
  Vector.ofFn fun i => if i.val = capacity - 1 then 0 else i.val + 1

def next (capacity current : Nat) (h : current < capacity) : Nat :=
  if capacity < SMALL_INTEGER_OPTIMISATION_LIMIT then (nextArr capacity)[current]
  else (current + 1) % capacity

/-- Table and remainder agree. -/
theorem next_eq {capacity current : Nat} (h : current < capacity) :
    next capacity current h = (current + 1) % capacity := by
  unfold next
  split
  · rw [nextArr, Vector.getElem_ofFn]
    dsimp only
    split
    · next hl =>
      rw [hl, Nat.sub_add_cancel (by omega), Nat.mod_self]
    · exact (Nat.mod_eq_of_lt (by omega)).symm
  · rfl

theorem next_lt {capacity current : Nat} (h : current < capacity) :
    next capacity current h < capacity := by
  rw [next_eq]
  exact Nat.mod_lt _ (Nat.zero_lt_of_lt h)

namespace LockFreeQueue

variable {T : Type} {capacity : Nat}

def new (T : Type) {capacity : Nat} (h : 0 < capacity) : LockFreeQueue T capacity where
  arr_ := Vector.replicate capacity none
  head_ := 0
  tail_ := 0
  size_ := 0
  head_lt := h
  tail_lt := h

def push (q : LockFreeQueue T capacity) (elem : T) : Bool × LockFreeQueue T capacity :=
  let tail := q.tail_
  let next_tail := next capacity tail q.tail_lt
  (true, { q with
    arr_ := q.arr_.set tail (some elem) q.tail_lt
    tail_ := next_tail
    size_ := q.size_ + 1
    tail_lt := next_lt q.tail_lt })

def pop (q : LockFreeQueue T capacity) (spurious : Bool) :
    Option (Option T) × LockFreeQueue T capacity :=
  let head := q.head_
  if head = q.tail_ then (none, q)
  else if spurious then (none, q)
  else
    let result := q.arr_.get ⟨head, q.head_lt⟩
    (some result, { q with
      arr_ := q.arr_.set head none q.head_lt
      head_ := next capacity head q.head_lt
      size_ := q.size_ - 1
      head_lt := next_lt q.head_lt })

def empty (q : LockFreeQueue T capacity) : Bool := q.head_ == q.tail_

def full (q : LockFreeQueue T capacity) : Bool :=
  next capacity q.tail_ q.tail_lt == q.head_

/-! ## The queue as a ring -/

/-- The slots from the head to the tail hold `l`. -/
structure Holds (q : LockFreeQueue T capacity) (l : List T) : Prop where
  length_lt : l.length < capacity
  tail_eq : q.tail_ = (q.head_ + l.length) % capacity
  slots : ring q.arr_ (Nat.zero_lt_of_lt q.head_lt) q.head_ l.length = l.map some

/-- How many slots there are from the head to the tail. -/
def count (q : LockFreeQueue T capacity) : Nat := (q.tail_ + capacity - q.head_) % capacity

variable {q : LockFreeQueue T capacity} {l : List T}

@[simp] theorem push_head (elem : T) : (q.push elem).2.head_ = q.head_ := rfl

@[simp] theorem push_tail (elem : T) :
    (q.push elem).2.tail_ = next capacity q.tail_ q.tail_lt := rfl

@[simp] theorem push_arr (elem : T) :
    (q.push elem).2.arr_ = q.arr_.set q.tail_ (some elem) q.tail_lt := rfl

theorem pop_of_eq (h : q.head_ = q.tail_) (spurious : Bool) : q.pop spurious = (none, q) :=
  if_pos h

theorem pop_spurious : q.pop true = (none, q) := by
  unfold pop
  dsimp only
  rw [if_pos rfl, ite_self]

theorem pop_of_ne (h : q.head_ ≠ q.tail_) :
    q.pop false = (some (q.arr_.get ⟨q.head_, q.head_lt⟩), { q with
      arr_ := q.arr_.set q.head_ none q.head_lt
      head_ := next capacity q.head_ q.head_lt
      size_ := q.size_ - 1
      head_lt := next_lt q.head_lt }) := by
  unfold pop
  dsimp only
  rw [if_neg h, if_neg Bool.false_ne_true]

theorem holds_new (h : 0 < capacity) : Holds (new T h) [] :=
  ⟨h, (Nat.zero_mod _).symm, rfl⟩

theorem Holds.count_eq (h : Holds q l) : q.count = l.length := by
  rw [count, h.tail_eq]
  exact steps_of_place q.head_lt h.length_lt

theorem Holds.empty_iff (h : Holds q l) : q.head_ = q.tail_ ↔ l = [] := by
  have hl := h.length_lt
  rw [h.tail_eq, eq_comm, place_head_iff q.head_lt hl.le, ← List.length_eq_zero_iff]
  omega

theorem Holds.full_iff (h : Holds q l) : q.full = true ↔ l.length + 1 = capacity := by
  have hl := h.length_lt
  rw [full, beq_iff_eq, next_eq, h.tail_eq, Nat.mod_add_mod, Nat.add_assoc,
    place_head_iff q.head_lt hl]
  omega

/-- A push to a queue with room puts the element behind the last one. -/
theorem Holds.push (h : Holds q l) (hr : l.length + 1 < capacity) (elem : T) :
    Holds (q.push elem).2 (l ++ [elem]) where
  length_lt := by rwa [List.length_append, List.length_singleton]
  tail_eq := by
    rw [List.length_append, List.length_singleton]
    rw [push_tail, push_head, next_eq, h.tail_eq, Nat.mod_add_mod, Nat.add_assoc]
  slots := by
    have hp := ring_push q.arr_ (Nat.zero_lt_of_lt q.head_lt) q.head_ h.length_lt (some elem)
    rw [List.length_append, List.length_singleton, List.map_append, List.map_singleton, ← h.slots,
      ← hp]
    simp only [push_arr, push_head, h.tail_eq]

/-- A push to a full queue makes it empty. -/
theorem Holds.push_full (h : Holds q l) (hf : l.length + 1 = capacity) (elem : T) :
    Holds (q.push elem).2 [] where
  length_lt := Nat.zero_lt_of_lt q.head_lt
  tail_eq := by
    have he := beq_iff_eq.mp (h.full_iff.mpr hf)
    rw [push_tail, push_head, ← he]
    exact (Nat.mod_eq_of_lt (next_lt _)).symm
  slots := rfl

/-- A pop gives the first element and leaves the others. -/
theorem Holds.pop {x : T} (h : Holds q (x :: l)) :
    (q.pop false).1 = some (some x) ∧ Holds (q.pop false).2 l := by
  have hs := h.slots
  have hl := h.length_lt
  rw [List.length_cons] at hl
  rw [List.length_cons, ring_succ _ _ q.head_lt, List.map_cons, List.cons.injEq] at hs
  have hne : ¬ q.head_ = q.tail_ := fun he => List.cons_ne_nil x l (h.empty_iff.mp he)
  rw [pop_of_ne hne]
  refine ⟨congrArg some hs.1, by omega, ?_, ?_⟩
  · dsimp only
    rw [h.tail_eq, next_eq, Nat.mod_add_mod, List.length_cons]
    congr 1
    omega
  · -- the slot that was moved out of is none of the others
    rw [← hs.2]
    dsimp only
    rw [ring_set]
    · simp only [next_eq]
    · intro i hi
      rw [next_eq, Nat.mod_add_mod, Nat.add_assoc]
      refine fun he => absurd ((place_head_iff q.head_lt (by omega)).mp he) (by omega)

/-! ## Popping until nothing comes -/

theorem tail_eq_count (q : LockFreeQueue T capacity) :
    q.tail_ = (q.head_ + q.count) % capacity := by
  have hh := q.head_lt
  rw [count, Nat.add_mod_mod, show q.head_ + (q.tail_ + capacity - q.head_) = q.tail_ + capacity
    by omega, Nat.add_mod_right, Nat.mod_eq_of_lt q.tail_lt]

theorem count_lt (q : LockFreeQueue T capacity) : q.count < capacity :=
  Nat.mod_lt _ (Nat.zero_lt_of_lt q.head_lt)

/-- A pop that gives something leaves less. -/
theorem pop_count_lt {spurious : Bool} {x : Option T} {q' : LockFreeQueue T capacity}
    (h : q.pop spurious = (some x, q')) : q'.count < q.count := by
  by_cases hne : q.head_ = q.tail_
  · rw [pop_of_eq hne] at h
    cases h
  cases spurious with
  | true =>
    rw [pop_spurious] at h
    cases h
  | false =>
    have ht := q.tail_eq_count
    have hc := q.count_lt
    have hpos : 0 < q.count := by
      refine Nat.pos_of_ne_zero fun h0 => hne ?_
      rw [ht, h0, Nat.add_zero, Nat.mod_eq_of_lt q.head_lt]
    rw [pop_of_ne hne, Prod.mk.injEq] at h
    obtain ⟨-, rfl⟩ := h
    have hs := steps_of_place (next_lt q.head_lt) (show q.count - 1 < capacity by omega)
    rw [next_eq, Nat.mod_add_mod, show q.head_ + 1 + (q.count - 1) = q.head_ + q.count by omega,
      ← ht] at hs
    unfold count at hs ⊢
    dsimp only
    rw [next_eq, hs]
    unfold count at hpos
    omega

/-- Pops until one gives nothing; `spurious i` tells the `i`-th of them whether its
    compare-exchange fails without a rival. -/
def drain (q : LockFreeQueue T capacity) (spurious : Nat → Bool) : List (Option T) :=
  match h : q.pop (spurious 0) with
  | (none, _) => []
  | (some x, q') => x :: q'.drain fun i => spurious (i + 1)
termination_by q.count
decreasing_by exact pop_count_lt h

theorem drain_of_none {spurious : Nat → Bool} (h : (q.pop (spurious 0)).1 = none) :
    q.drain spurious = [] := by
  unfold drain
  split
  · rfl
  · next hp =>
    rw [hp] at h
    cases h

theorem drain_of_some {spurious : Nat → Bool} {x : Option T}
    (h : (q.pop (spurious 0)).1 = some x) :
    q.drain spurious = x :: (q.pop (spurious 0)).2.drain fun i => spurious (i + 1) := by
  rw [drain]
  split
  · next hp =>
    rw [hp] at h
    cases h
  · next hp =>
    rw [hp] at h ⊢
    cases h
    rfl

/-- The closing pops give the elements in order, all of them if none of the pops that meet an
    element fails. -/
theorem Holds.drain (h : Holds q l) (spurious : Nat → Bool) :
    ∃ n, q.drain spurious = (l.take n).map some ∧
      (l.length ≤ n ↔ ∀ i < l.length, spurious i = false) := by
  induction l generalizing q spurious with
  | nil =>
    refine ⟨0, drain_of_none ?_, by simp⟩
    rw [pop_of_eq (h.empty_iff.mpr rfl)]
  | cons x l ih =>
    cases hs : spurious 0 with
    | true =>
      refine ⟨0, drain_of_none (by rw [hs, pop_spurious]), iff_of_false (by simp) fun hf => ?_⟩
      rw [hf 0 (Nat.succ_pos _)] at hs
      cases hs
    | false =>
      obtain ⟨hx, hq⟩ := h.pop
      obtain ⟨n, hd, hn⟩ := ih hq fun i => spurious (i + 1)
      refine ⟨n + 1, ?_, ?_⟩
      · rw [drain_of_some (hs ▸ hx), hs, hd]
        rfl
      · rw [List.length_cons, Nat.add_le_add_iff_right, hn]
        constructor
        · intro hf i hi
          cases i with
          | zero => exact hs
          | succ i => exact hf i (Nat.lt_of_succ_lt_succ hi)
        · exact fun hf i hi => hf (i + 1) (Nat.succ_lt_succ hi)

/-! ## Runs of calls -/

inductive Call (T : Type) where
  | push (elem : T)
  | pop (spurious : Bool)
  deriving DecidableEq, Repr

/-- The queue, the elements that `push` accepted and those that `pop` returned. -/
structure History (T : Type) (capacity : Nat) where
  queue : LockFreeQueue T capacity
  accepted : List T := []
  returned : List (Option T) := []

def History.fresh (T : Type) {capacity : Nat} (hc : 0 < capacity) : History T capacity where
  queue := new T hc

def History.call (h : History T capacity) : Call T → History T capacity
  | .push elem =>
    let (ok, queue) := h.queue.push elem
    ⟨queue, if ok then h.accepted ++ [elem] else h.accepted, h.returned⟩
  | .pop spurious =>
    let (result, queue) := h.queue.pop spurious
    ⟨queue, h.accepted, h.returned ++ result.toList⟩

def History.run (h : History T capacity) (calls : List (Call T)) : History T capacity :=
  calls.foldl History.call h

/-- Every push of the run finds `full` false. -/
def PushesWithRoom (h : History T capacity) : List (Call T) → Prop
  | [] => True
  | .push elem :: calls => h.queue.full = false ∧ PushesWithRoom (h.call (.push elem)) calls
  | .pop spurious :: calls => PushesWithRoom (h.call (.pop spurious)) calls

/-- `a` is the account of the history `h`. -/
structure IsAccount (h : History T capacity) (a : Account capacity T) : Prop where
  accepted : h.accepted = a.pushed
  returned : h.returned = a.popped.map some
  holds : h.queue.Holds a.contents

variable {h : History T capacity} {a : Account capacity T}

theorem isAccount_fresh (hc : 0 < capacity) :
    IsAccount (History.fresh T hc) (Account.empty hc : Account capacity T) :=
  ⟨rfl, rfl, holds_new hc⟩

theorem IsAccount.push_full (ha : IsAccount h a) (hf : h.queue.full = true) (elem : T) :
    ∃ a', IsAccount (h.call (.push elem)) a' ∧ a'.laps = a.laps + 1 := by
  have hl := ha.holds.full_iff.mp hf
  exact ⟨a.lap hl elem, ⟨congrArg (· ++ [elem]) ha.accepted, ha.returned,
    ha.holds.push_full hl elem⟩, rfl⟩

theorem IsAccount.push (ha : IsAccount h a) (hf : h.queue.full = false) (elem : T) :
    ∃ a', IsAccount (h.call (.push elem)) a' ∧ a'.laps = a.laps := by
  have hn := mt ha.holds.full_iff.mpr (Bool.eq_false_iff.mp hf)
  have hl : a.contents.length + 1 < capacity := by
    have := a.room
    omega
  exact ⟨a.store hl elem, ⟨congrArg (· ++ [elem]) ha.accepted, ha.returned,
    ha.holds.push hl elem⟩, rfl⟩

theorem IsAccount.pop (ha : IsAccount h a) (spurious : Bool) :
    ∃ a', IsAccount (h.call (.pop spurious)) a' ∧ a'.laps = a.laps := by
  have hnone (hp : h.queue.pop spurious = (none, h.queue)) : h.call (.pop spurious) = h := by
    unfold History.call
    simp only [hp, Option.toList_none, List.append_nil]
  cases hc : a.contents with
  | nil =>
    have hp := pop_of_eq (ha.holds.empty_iff.mpr hc) spurious
    exact ⟨a, (hnone hp).symm ▸ ha, rfl⟩
  | cons x rest =>
    cases spurious with
    | true => exact ⟨a, (hnone pop_spurious).symm ▸ ha, rfl⟩
    | false =>
      obtain ⟨hx, hq⟩ := (hc ▸ ha.holds).pop
      refine ⟨a.leave hc, ⟨ha.accepted, ?_, hq⟩, rfl⟩
      simp [History.call, hx, ha.returned, Account.leave]

/-- **A run of calls is an account**, and its laps are the pushes to a full queue. -/
theorem IsAccount.run (ha : IsAccount h a) (calls : List (Call T)) :
    ∃ a', IsAccount (h.run calls) a' ∧ a.laps ≤ a'.laps ∧
      (a'.laps = a.laps ↔ PushesWithRoom h calls) := by
  induction calls generalizing h a with
  | nil => exact ⟨a, ha, le_rfl, iff_of_true rfl trivial⟩
  | cons call calls ih =>
    cases call with
    | push elem =>
      cases hf : h.queue.full with
      | true =>
        obtain ⟨a₁, ha₁, hl₁⟩ := ha.push_full hf elem
        obtain ⟨a₂, ha₂, hle, -⟩ := ih ha₁
        refine ⟨a₂, ha₂, by omega, iff_of_false (by omega) fun hr => ?_⟩
        rw [hr.1] at hf
        cases hf
      | false =>
        obtain ⟨a₁, ha₁, hl₁⟩ := ha.push hf elem
        obtain ⟨a₂, ha₂, hle, hr⟩ := ih ha₁
        refine ⟨a₂, ha₂, by omega, ?_⟩
        rw [← hl₁, hr, PushesWithRoom]
        exact (and_iff_right hf).symm
    | pop spurious =>
      obtain ⟨a₁, ha₁, hl₁⟩ := ha.pop spurious
      obtain ⟨a₂, ha₂, hle, hr⟩ := ih ha₁
      refine ⟨a₂, ha₂, by omega, ?_⟩
      rw [← hl₁, hr, PushesWithRoom]

/-- **When nothing is lost.** After a run on a fresh queue and pops until one gives nothing,
    every accepted element has been returned, as often as it was accepted, exactly when every
    push found room and no pop that met an element at the end failed without a rival. -/
theorem nothing_lost_iff (hc : 0 < capacity) (calls : List (Call T)) (spurious : Nat → Bool) :
    (((History.fresh T hc).run calls).accepted.map some).Subperm
        (((History.fresh T hc).run calls).returned ++
          ((History.fresh T hc).run calls).queue.drain spurious) ↔
      PushesWithRoom (History.fresh T hc) calls ∧
        ∀ i < ((History.fresh T hc).run calls).queue.count, spurious i = false := by
  obtain ⟨a, ha, -, hl⟩ := (isAccount_fresh hc).run calls
  obtain ⟨n, hd, hn⟩ := ha.holds.drain spurious
  rw [ha.accepted, ha.returned, hd, ← List.map_append,
    List.map_subperm_map_iff (Option.some_injective T), a.complete_iff, hn, ha.holds.count_eq, ← hl]
  rfl

/-- Pushes and pops once round a ring of three slots. -/
def roundTheRing : List (Call Nat) :=
  [.push 5, .push 6, .pop false, .push 7, .pop false, .pop false, .pop false, .push 8, .push 9]

/-- Three elements come out on the way, and the other two at the end. -/
theorem nothing_lost_iff_roundTheRing :
    ((History.fresh Nat (by decide : 0 < 3)).run roundTheRing).accepted = [5, 6, 7, 8, 9] ∧
      ((History.fresh Nat (by decide : 0 < 3)).run roundTheRing).returned =
        [some 5, some 6, some 7] ∧
      (((History.fresh Nat (by decide : 0 < 3)).run roundTheRing).accepted.map some).Subperm
        (((History.fresh Nat (by decide : 0 < 3)).run roundTheRing).returned ++
          ((History.fresh Nat (by decide : 0 < 3)).run roundTheRing).queue.drain
            fun _ => false) := by
  refine ⟨by decide, by decide, (nothing_lost_iff (by decide) roundTheRing fun _ => false).mpr ?_⟩
  exact ⟨⟨by decide, by decide, by decide, by decide, by decide, trivial⟩, fun _ _ => rfl⟩

/-- Two pushes in a row to a queue of two slots: both are accepted and none comes out. -/
theorem lost_two_pushes :
    ((History.fresh Nat (by decide : 0 < 2)).run [.push 7, .push 8]).accepted = [7, 8] ∧
      ((History.fresh Nat (by decide : 0 < 2)).run [.push 7, .push 8]).returned ++
        ((History.fresh Nat (by decide : 0 < 2)).run [.push 7, .push 8]).queue.drain
          (fun _ => false) = [] := by
  decide +kernel

/-! ## What the pops return -/

/-- The elements of the pushes, in order. -/
def pushed (calls : List (Call T)) : List T :=
  calls.filterMap fun
    | .push elem => some elem
    | .pop _ => none

/-- Every push is accepted. -/
theorem run_accepted (h : History T capacity) (calls : List (Call T)) :
    (h.run calls).accepted = h.accepted ++ pushed calls := by
  induction calls generalizing h with
  | nil => exact (List.append_nil _).symm
  | cons call calls ih =>
    have hr : h.run (call :: calls) = (h.call call).run calls := rfl
    rw [hr, ih]
    cases call with
    | push elem =>
      show h.accepted ++ [elem] ++ pushed calls = h.accepted ++ elem :: pushed calls
      rw [List.append_assoc, List.singleton_append]
    | pop spurious => rfl

/-- **What the pops return is a subsequence of what was pushed**, however often the pushes lap
    the pops. A slot that was never written or is moved out of would be `none`. -/
theorem returned_sublist_pushed (hc : 0 < capacity) (calls : List (Call T)) :
    ((History.fresh T hc).run calls).returned.Sublist ((pushed calls).map some) := by
  obtain ⟨a, ha, -⟩ := (isAccount_fresh hc).run calls
  have hp : a.pushed = pushed calls := by
    rw [← ha.accepted, run_accepted]
    rfl
  have hs : a.popped.Sublist a.pushed := (List.sublist_append_left _ _).trans a.order
  rw [ha.returned, ← hp]
  exact hs.map some

/-- The third push goes over the two elements in a queue of three slots, and is lost with them. -/
theorem returned_sublist_pushed_lapped :
    ((History.fresh Nat (by decide : 0 < 3)).run
        [.push 5, .push 6, .push 7, .pop false, .push 8, .pop true, .pop false]).returned.Sublist
      ([5, 6, 7, 8].map some) :=
  returned_sublist_pushed (by decide)
    [.push 5, .push 6, .push 7, .pop false, .push 8, .pop true, .pop false]

end LockFreeQueue

end SimpleServ.Utility
