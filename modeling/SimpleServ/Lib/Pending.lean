import Mathlib.Data.List.Nodup
import Mathlib.Logic.Function.Basic
import Mathlib.Logic.Function.Conjugate
import Mathlib.Order.Basic

/-
  Several parties that work on one state, each with something left to do.

  What a party has left is a function of the state, and `settle` lets all of them do it. Where
  what the others have left commutes with a function, that function can be done at once or be
  left to a party: `settle_update`. So a party that does a part of what it has left does not
  change the settled state (`settle_advance`), and one that takes something on changes it as if
  it did that after everything else (`settle_begin`).
-/

namespace SimpleServ.Lib

variable {ι W : Type} {left : ι → W → W} {parties : List ι} {i : ι} {act tail : W → W}

/-- The state after every party of the list has done what it has left. -/
def settle (left : ι → W → W) (parties : List ι) (world : W) : W := parties.foldr left world

theorem settle_commute (h : ∀ j ∈ parties, Function.Commute (left j) act) (world : W) :
    settle left parties (act world) = act (settle left parties world) := by
  induction parties with
  | nil => rfl
  | cons j parties ih =>
    show left j (settle left parties (act world)) = act (left j (settle left parties world))
    rw [ih fun k hk => h k (List.mem_cons_of_mem j hk)]
    exact h j List.mem_cons_self _

theorem settle_congr {left' : ι → W → W} (h : ∀ j ∈ parties, left' j = left j) (world : W) :
    settle left' parties world = settle left parties world := by
  induction parties with
  | nil => rfl
  | cons j parties ih =>
    show left' j (settle left' parties world) = left j (settle left parties world)
    rw [ih fun k hk => h k (List.mem_cons_of_mem j hk), h j List.mem_cons_self]

/-- Nobody has anything left. -/
theorem settle_idle (h : ∀ j ∈ parties, left j = id) (world : W) :
    settle left parties world = world := by
  rw [show settle left parties world = settle (fun _ => id) parties world from settle_congr h world]
  induction parties with
  | nil => rfl
  | cons j parties ih => exact ih fun k hk => h k (List.mem_cons_of_mem j hk)

/-- What every party raises or leaves, and one of them raises, is higher in the end. -/
theorem settle_lt {α : Type} [Preorder α] {f : W → α}
    (hle : ∀ j ∈ parties, ∀ world, f world ≤ f (left j world)) (hi : i ∈ parties)
    (hlt : ∀ world, f world < f (left i world)) (world : W) :
    f world < f (settle left parties world) := by
  induction parties with
  | nil => cases hi
  | cons j parties ih =>
    have hrest : ∀ k ∈ parties, ∀ world, f world ≤ f (left k world) :=
      fun k hk => hle k (List.mem_cons_of_mem j hk)
    have hall : ∀ parties : List ι, (∀ k ∈ parties, ∀ world, f world ≤ f (left k world)) →
        f world ≤ f (settle left parties world) := by
      intro parties h
      induction parties with
      | nil => exact le_rfl
      | cons k parties ih =>
        exact (ih fun l hl => h l (List.mem_cons_of_mem k hl)).trans (h k List.mem_cons_self _)
    rcases List.mem_cons.mp hi with rfl | hi
    · exact (hall parties hrest).trans_lt (hlt _)
    · exact (ih hrest hi).trans_le (hle j List.mem_cons_self _)

variable [DecidableEq ι]

/-- Done at once or left to `i`: it comes to the same. -/
theorem settle_update (hn : parties.Nodup) (hi : i ∈ parties)
    (h : ∀ j ∈ parties, j ≠ i → Function.Commute (left j) act) (world : W) :
    settle (Function.update left i (left i ∘ act)) parties world =
      settle left parties (act world) := by
  induction parties with
  | nil => cases hi
  | cons j parties ih =>
    obtain ⟨hj, hn⟩ := List.nodup_cons.mp hn
    show Function.update left i (left i ∘ act) j
        (settle (Function.update left i (left i ∘ act)) parties world) =
      left j (settle left parties (act world))
    by_cases hji : j = i
    · subst hji
      have hrest : ∀ k ∈ parties, k ≠ j := fun k hk he => hj (he ▸ hk)
      have hothers : ∀ k ∈ parties, Function.update left j (left j ∘ act) k = left k :=
        fun k hk => Function.update_of_ne (hrest k hk) _ _
      rw [Function.update_self, settle_congr hothers,
        settle_commute fun k hk => h k (List.mem_cons_of_mem j hk) (hrest k hk)]
      rfl
    · have hi' : i ∈ parties := (List.mem_cons.mp hi).resolve_left (Ne.symm hji)
      rw [Function.update_of_ne hji, ih hn hi' fun k hk => h k (List.mem_cons_of_mem j hk)]

/-- A party with nothing left takes on `tail`, which commutes with what the others have left. -/
theorem settle_begin (hn : parties.Nodup) (hi : i ∈ parties) (hidle : left i = id)
    (h : ∀ j ∈ parties, j ≠ i → Function.Commute (left j) tail) (world : W) :
    settle (Function.update left i tail) parties world = tail (settle left parties world) := by
  have hu := settle_update hn hi h world
  rw [hidle, Function.id_comp] at hu
  rw [hu]
  refine settle_commute (fun j hj => ?_) world
  by_cases hji : j = i
  · rw [hji, hidle]
    exact Function.Commute.id_left
  · exact h j hj hji

/-- A party does the first part of what it has left. -/
theorem settle_advance (hn : parties.Nodup) (hi : i ∈ parties) (hleft : left i = tail ∘ act)
    (h : ∀ j ∈ parties, j ≠ i → Function.Commute (left j) act) (world : W) :
    settle (Function.update left i tail) parties (act world) = settle left parties world := by
  have hothers : ∀ j ∈ parties, j ≠ i → Function.Commute (Function.update left i tail j) act := by
    intro j hj hji
    rw [Function.update_of_ne hji]
    exact h j hj hji
  have hu := settle_update hn hi hothers world
  rw [← hu, Function.update_self, Function.update_idem, ← hleft, Function.update_eq_self]

end SimpleServ.Lib
