import Mathlib.Data.List.Basic
import Mathlib.Data.List.Perm.Subperm

/-
  A bounded first-in first-out store that is emptied when it is overrun.

  It holds fewer than `cap` elements. One that comes when `cap - 1` are held takes all of them
  with it: the store has been lapped. A ring of `cap` places behaves so when it tells empty
  from full by comparing two indices and its writer does not look at the reader's.

  An `Account` is such a store with its whole past, and carries the two laws of it: everything
  that came has left, is held or went with a lap, `cap` at a time; and the elements that left
  or are held are in the order they came. `complete_iff`: everything that came is among what
  left and the next `n` to leave exactly when there was no lap and no more than `n` are held.
-/

namespace SimpleServ.Lib

structure Account (cap : Nat) (α : Type) where
  pushed : List α
  popped : List α
  contents : List α
  laps : Nat
  room : contents.length < cap
  balance : pushed.length = popped.length + contents.length + cap * laps
  order : (popped ++ contents).Sublist pushed

namespace Account

variable {cap : Nat} {α : Type}

def empty (h : 0 < cap) : Account cap α where
  pushed := []
  popped := []
  contents := []
  laps := 0
  room := h
  balance := rfl
  order := .slnil

/-- An element comes to a full store. -/
def lap (a : Account cap α) (h : a.contents.length + 1 = cap) (x : α) : Account cap α where
  pushed := a.pushed ++ [x]
  popped := a.popped
  contents := []
  laps := a.laps + 1
  room := by rw [List.length_nil]; omega
  balance := by
    have := a.balance
    rw [List.length_append, List.length_nil, List.length_singleton, Nat.mul_add_one]
    omega
  order := by
    rw [List.append_nil]
    exact ((List.sublist_append_left _ _).trans a.order).trans (List.sublist_append_left _ _)

/-- An element comes to a store with room. -/
def store (a : Account cap α) (h : a.contents.length + 1 < cap) (x : α) : Account cap α where
  pushed := a.pushed ++ [x]
  popped := a.popped
  contents := a.contents ++ [x]
  laps := a.laps
  room := by rwa [List.length_append, List.length_singleton]
  balance := by
    have := a.balance
    rw [List.length_append, List.length_append, List.length_singleton]
    omega
  order := by
    rw [← List.append_assoc]
    exact a.order.append_right [x]

/-- The oldest element leaves. -/
def leave (a : Account cap α) {x : α} {rest : List α} (h : a.contents = x :: rest) :
    Account cap α where
  pushed := a.pushed
  popped := a.popped ++ [x]
  contents := rest
  laps := a.laps
  room := by
    have := a.room
    rw [h, List.length_cons] at this
    omega
  balance := by
    have := a.balance
    rw [h, List.length_cons] at this
    rw [List.length_append, List.length_singleton]
    omega
  order := by
    have := a.order
    rwa [h, List.append_cons] at this

/-- Without a lap everything that came has left or is held, in order. -/
theorem pushed_eq (a : Account cap α) (h : a.laps = 0) : a.pushed = a.popped ++ a.contents := by
  refine (a.order.eq_of_length ?_).symm
  rw [a.balance, h, List.length_append]
  rfl

theorem complete_iff (a : Account cap α) (n : Nat) :
    a.pushed.Subperm (a.popped ++ a.contents.take n) ↔ a.laps = 0 ∧ a.contents.length ≤ n := by
  constructor
  · intro hs
    have hle := hs.length_le
    rw [a.balance, List.length_append, List.length_take] at hle
    have hl : cap * a.laps = 0 := by omega
    refine ⟨(Nat.mul_eq_zero.mp hl).resolve_left ?_, by omega⟩
    exact Nat.ne_of_gt (Nat.zero_lt_of_lt a.room)
  · rintro ⟨hl, hn⟩
    rw [a.pushed_eq hl, List.take_of_length_le hn]

end Account

end SimpleServ.Lib
