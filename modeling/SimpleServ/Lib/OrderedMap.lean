import Mathlib

/-
  Ordered maps whose order tells different keys apart: lookups behind an insertion, and
  behind a run of insertions, by equality of keys instead of `compare`. `subscript` is a
  lookup that puts a missing key in; a run of such lookups gets the same answers in any order.
-/

namespace SimpleServ.Lib

variable {α β : Type} [Ord α] [Std.TransOrd α] [Std.LawfulEqOrd α]

theorem mem_keys_iff {map : Std.ExtTreeMap α β} {key : α} :
    key ∈ map.keys ↔ ∃ value, map[key]? = some value := by
  rw [Std.ExtTreeMap.mem_keys, ← Std.ExtTreeMap.isSome_getElem?_iff_mem, Option.isSome_iff_exists]

variable [DecidableEq α]

theorem getElem?_insert (map : Std.ExtTreeMap α β) (key other : α) (value : β) :
    (map.insert key value)[other]? = if other = key then some value else map[other]? := by
  rw [Std.ExtTreeMap.getElem?_insert]
  exact if_congr (Std.compare_eq_iff_eq.trans eq_comm) rfl rfl

/-- Entries that depend on their keys alone, put in one after another. -/
theorem getElem?_foldl_insert (f : α → β) (keys : List α) (map : Std.ExtTreeMap α β) (key : α) :
    (keys.foldl (fun map key => map.insert key (f key)) map)[key]? =
      if key ∈ keys then some (f key) else map[key]? := by
  induction keys generalizing map with
  | nil => rfl
  | cons first keys ih =>
    rw [List.foldl_cons, ih, getElem?_insert]
    by_cases hm : key ∈ keys
    · rw [if_pos hm, if_pos (List.mem_cons_of_mem _ hm)]
    · rw [if_neg hm]
      by_cases hf : key = first
      · subst hf
        rw [if_pos rfl, if_pos List.mem_cons_self]
      · rw [if_neg hf, if_neg (List.not_mem_cons_of_ne_of_not_mem hf hm)]

/-! ## Lookups that put keys in -/

/-- The value of the key, which gets `default` where it has none. -/
def subscript (default : β) (map : Std.ExtTreeMap α β) (key : α) : β × Std.ExtTreeMap α β :=
  match map[key]? with
  | some value => (value, map)
  | none => (default, map.insert key default)

def subscripts (default : β) : List α → Std.ExtTreeMap α β → List β × Std.ExtTreeMap α β
  | [], map => ([], map)
  | key :: keys, map =>
    let (value, map) := subscript default map key
    let (values, map) := subscripts default keys map
    (value :: values, map)

omit [Std.LawfulEqOrd α] [DecidableEq α] in
theorem subscript_fst (default : β) (map : Std.ExtTreeMap α β) (key : α) :
    (subscript default map key).1 = map[key]?.getD default := by
  unfold subscript
  cases map[key]? <;> rfl

theorem getElem?_subscript (default : β) (map : Std.ExtTreeMap α β) (key other : α) :
    (subscript default map key).2[other]? =
      map[other]?.or (if other = key then some default else none) := by
  unfold subscript
  cases hk : map[key]? with
  | some value =>
    by_cases ho : other = key
    · subst ho
      rw [hk]
      rfl
    · rw [if_neg ho, Option.or_none]
  | none =>
    dsimp only
    rw [getElem?_insert]
    by_cases ho : other = key
    · subst ho
      rw [if_pos rfl, if_pos rfl, hk, Option.none_or]
    · rw [if_neg ho, if_neg ho, Option.or_none]

/-- What is put in on the way is the default, and so changes no later answer. -/
theorem subscripts_fst (default : β) (keys : List α) (map : Std.ExtTreeMap α β) :
    (subscripts default keys map).1 = keys.map fun key => map[key]?.getD default := by
  induction keys generalizing map with
  | nil => rfl
  | cons key keys ih =>
    show (subscript default map key).1 ::
      (subscripts default keys (subscript default map key).2).1 = _
    rw [ih, subscript_fst, List.map_cons]
    refine congrArg _ (List.map_congr_left fun other _ => ?_)
    rw [getElem?_subscript]
    cases map[other]? with
    | some value => rfl
    | none =>
      rw [Option.none_or]
      split <;> rfl

theorem getElem?_subscripts (default : β) (keys : List α) (map : Std.ExtTreeMap α β) (key : α) :
    (subscripts default keys map).2[key]? =
      map[key]?.or (if key ∈ keys then some default else none) := by
  induction keys generalizing map with
  | nil =>
    show map[key]? = _
    rw [if_neg List.not_mem_nil, Option.or_none]
  | cons first keys ih =>
    show (subscripts default keys (subscript default map first).2).2[key]? = _
    rw [ih, getElem?_subscript, Option.or_assoc]
    congr 1
    by_cases hf : key = first
    · rw [if_pos hf, Option.some_or, if_pos (hf ▸ List.mem_cons_self)]
    · rw [if_neg hf, Option.none_or]
      have hm : key ∈ keys ↔ key ∈ first :: keys := by simp [hf]
      exact if_congr hm rfl rfl

end SimpleServ.Lib
