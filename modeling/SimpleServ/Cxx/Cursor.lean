import SimpleServ.Cxx.Text

/-
  A cursor into a string: a `string_view` that always reaches to the end of the string.

  `Cursor s` carries that its view is a suffix of `s`, so a cursor that left `s` cannot be
  built; the operation that would make one (`remove_prefix` past the end) ends in `ub`.
  Actions on a cursor are `StateT (Cursor s) Outcome`, and `At rest` is the condition that
  the cursor stands before `rest`.
-/

namespace SimpleServ.Cxx

open Outcome

/-- What is left of `s`. -/
structure Cursor (s : Bytes) where
  view : Bytes
  view_suffix : view <:+ s

namespace Cursor

variable {s : Bytes}

@[ext] theorem ext {c d : Cursor s} (h : c.view = d.view) : c = d := by
  cases c; cases d
  cases h
  rfl

instance : DecidableEq (Cursor s) := fun c d =>
  decidable_of_iff (c.view = d.view) ⟨ext, fun h => h ▸ rfl⟩

/-- The cursor at the start of `s`. -/
def start (s : Bytes) : Cursor s := ⟨s, List.suffix_refl s⟩

@[simp] theorem start_view (s : Bytes) : (start s).view = s := rfl

def advance (c : Cursor s) (n : Nat) : Cursor s :=
  ⟨c.view.drop n, (List.drop_suffix n c.view).trans c.view_suffix⟩

@[simp] theorem advance_view (c : Cursor s) (n : Nat) : (c.advance n).view = c.view.drop n := rfl

/-- `remove_prefix` on the cursor's view; `none` is `npos`. -/
def removePrefix (c : Cursor s) : Option Nat → Outcome (Cursor s)
  | none => ub
  | some n => if n ≤ c.view.length then ret (c.advance n) else ub

theorem removePrefix_append {c : Cursor s} {a rest : Bytes} (h : c.view = a ++ rest) :
    ∃ c', c.removePrefix (some a.length) = ret c' ∧ c'.view = rest := by
  refine ⟨c.advance a.length, ?_, ?_⟩
  · simp [removePrefix, h]
  · simp [h]

/-- Removing at least one byte makes the view shorter: the measure of every parser loop. -/
theorem removePrefix_shorter {c c' : Cursor s} {n : Nat} (hn : 0 < n)
    (h : c.removePrefix (some n) = ret c') : c'.view.length < c.view.length := by
  by_cases hl : n ≤ c.view.length
  · simp only [removePrefix, hl, if_true, ret.injEq] at h
    rw [← h, advance_view, List.length_drop]
    omega
  · simp [removePrefix, hl] at h

end Cursor

/-- The cursor stands before `rest`. -/
def At {s : Bytes} (rest : Bytes) : Cursor s → Prop := fun c => c.view = rest

end SimpleServ.Cxx
