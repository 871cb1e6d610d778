import Mathlib.Data.List.Range
import Mathlib.Data.Nat.ModEq

/-
  Reading a vector of `cap` places as a ring: `ring arr h head n` lists the `n` elements from
  place `head` on, the places after the last being the first ones again. The lemmas take the
  first element off, add one behind the last, and say which writes do not matter.
-/

namespace SimpleServ.Lib

variable {α : Type} {cap : Nat}

def ring (arr : Vector α cap) (h : 0 < cap) (head n : Nat) : List α :=
  (List.range n).map fun i => arr.get ⟨(head + i) % cap, Nat.mod_lt _ h⟩

/-- Less than `cap` steps apart are two places. -/
theorem place_ne {i j : Nat} (head : Nat) (hij : i < j) (hj : j < i + cap) :
    (head + i) % cap ≠ (head + j) % cap := by
  intro he
  have hd : cap ∣ head + j - (head + i) := (Nat.modEq_iff_dvd' (by omega)).mp he
  have hle := Nat.le_of_dvd (by omega) hd
  omega

/-- One is back at the head after no step and after `cap` of them. -/
theorem place_head_iff {head n : Nat} (hh : head < cap) (hn : n ≤ cap) :
    (head + n) % cap = head ↔ n = 0 ∨ n = cap := by
  constructor
  · intro he
    by_contra hne
    refine @place_ne cap 0 n head (by omega) (by omega) ?_
    rw [Nat.add_zero, Nat.mod_eq_of_lt hh, he]
  · rintro (rfl | rfl)
    · rw [Nat.add_zero, Nat.mod_eq_of_lt hh]
    · rw [Nat.add_mod_right, Nat.mod_eq_of_lt hh]

/-- The number of steps from the head, told from the place they lead to. -/
theorem steps_of_place {head n : Nat} (hh : head < cap) (hn : n < cap) :
    ((head + n) % cap + cap - head) % cap = n := by
  rcases Nat.lt_or_ge (head + n) cap with hw | hw
  · rw [Nat.mod_eq_of_lt hw, show head + n + cap - head = n + cap by omega, Nat.add_mod_right,
      Nat.mod_eq_of_lt hn]
  · rw [Nat.mod_eq_sub_mod hw, Nat.mod_eq_of_lt (show head + n - cap < cap by omega),
      show head + n - cap + cap - head = n by omega, Nat.mod_eq_of_lt hn]

theorem ring_set {arr : Vector α cap} {h : 0 < cap} {head n j : Nat} (hj : j < cap) (x : α)
    (hn : ∀ i < n, (head + i) % cap ≠ j) : ring (arr.set j x hj) h head n = ring arr h head n := by
  apply List.map_congr_left
  intro i hi
  exact Vector.getElem_set_ne _ _ (hn i (List.mem_range.mp hi)).symm

/-- An element written behind the last of fewer than `cap` elements comes last. -/
theorem ring_push (arr : Vector α cap) (h : 0 < cap) (head : Nat) {n : Nat} (hn : n < cap) (x : α) :
    ring (arr.set ((head + n) % cap) x (Nat.mod_lt _ h)) h head (n + 1) =
      ring arr h head n ++ [x] := by
  have hs : ring (arr.set ((head + n) % cap) x (Nat.mod_lt _ h)) h head n = ring arr h head n :=
    ring_set _ x fun i hi => place_ne head hi (by omega)
  rw [← hs, ring, List.range_succ, List.map_append, List.map_singleton]
  congr 2
  exact Vector.getElem_set_self _

theorem ring_succ (arr : Vector α cap) (h : 0 < cap) {head : Nat} (hh : head < cap) (n : Nat) :
    ring arr h head (n + 1) = arr.get ⟨head, hh⟩ :: ring arr h ((head + 1) % cap) n := by
  rw [ring, List.range_succ_eq_map, List.map_cons, List.map_map, ring]
  congr 1
  · congr 2
    exact Nat.mod_eq_of_lt hh
  · apply List.map_congr_left
    intro i hi
    rw [Function.comp_apply]
    congr 2
    rw [Nat.mod_add_mod, Nat.succ_eq_add_one]
    congr 1
    omega

end SimpleServ.Lib
