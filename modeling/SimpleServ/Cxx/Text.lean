import SimpleServ.Cxx.Outcome

/-
  Byte strings and the `std::string_view` operations.

  A `std::string` is the list of its bytes, and a view is the list of the bytes it covers.
  A position `std::string::npos` is `none`: no string is that long, so `remove_prefix (npos)`
  is outside its precondition and `substr (0, npos)` is the whole view.

  The second half splits a string at its first byte of a kind (`split_first`) and after its
  longest run of a kind (`split_run`), and says what the searches return on such a string.
  `split_run_unique`: the longest run is unique, so two ways of reading it agree.
-/

namespace SimpleServ.Cxx

open Outcome

abbrev Byte := UInt8

/-- The bytes of a `std::string` or of a `std::string_view`. -/
abbrev Bytes := List Byte

/-- The bytes of a character literal and of a string literal (both ASCII). -/
def chr (c : Char) : Byte := c.toUInt8

def lit (s : String) : Bytes := s.toList.map chr

/-- `std::to_string` on integers. -/
def decimal (n : Int) : Bytes := lit (toString n)

/-- `static_cast<int>` of a `char`, which is signed. -/
def charToInt (c : Byte) : Int := c.toInt8.toInt

/-! ## View operations -/

def startsWith (v p : Bytes) : Bool := p.isPrefixOf v

def startsWithChar (v : Bytes) (c : Byte) : Bool := v.head? == some c

def endsWithChar (v : Bytes) (c : Byte) : Bool := v.getLast? == some c

/-- `find_first_of`; `none` is `npos`. -/
def findFirstOf (v set : Bytes) : Option Nat := v.findIdx? (· ∈ set)

/-- `substr (0, n)`. -/
def substrTo (v : Bytes) : Option Nat → Bytes
  | none => v
  | some n => v.take n

def removePrefix (v : Bytes) : Option Nat → Outcome Bytes
  | none => ub
  | some n => if n ≤ v.length then ret (v.drop n) else ub

def removeSuffix (v : Bytes) (n : Nat) : Outcome Bytes :=
  if n ≤ v.length then ret (v.take (v.length - n)) else ub

/-- `view[0]`, unchecked. -/
def front : Bytes → Outcome Byte
  | [] => ub
  | x :: _ => ret x

/-- `view.back ()`, unchecked. -/
def back (v : Bytes) : Outcome Byte :=
  match v.getLast? with
  | none => ub
  | some x => ret x

/-- `view.at (0)`, checked. -/
def atZero : Bytes → Outcome Byte
  | [] => throw .out_of_range
  | x :: _ => ret x

theorem startsWith_iff {v p : Bytes} : startsWith v p = true ↔ ∃ rest, v = p ++ rest := by
  unfold startsWith
  rw [List.isPrefixOf_iff_prefix]
  constructor
  · rintro ⟨rest, h⟩; exact ⟨rest, h.symm⟩
  · rintro ⟨rest, h⟩; exact ⟨rest, h.symm⟩

@[simp] theorem startsWith_append (p rest : Bytes) : startsWith (p ++ rest) p = true :=
  startsWith_iff.mpr ⟨rest, rfl⟩

theorem startsWith_of_short {v p : Bytes} (h : v.length < p.length) : startsWith v p = false := by
  cases hs : startsWith v p with
  | false => rfl
  | true =>
    obtain ⟨rest, rfl⟩ := startsWith_iff.mp hs
    rw [List.length_append] at h
    omega

/-- Drops the literal `p` where `v` starts with it, and nothing otherwise. -/
def skip (p v : Bytes) : Bytes := if startsWith v p then v.drop p.length else v

@[simp] theorem skip_append (p rest : Bytes) : skip p (p ++ rest) = rest := by
  simp [skip]

theorem skip_of_not {p v : Bytes} (h : startsWith v p = false) : skip p v = v := by
  simp [skip, h]

theorem skip_eq {p v w : Bytes} (h : skip p v = w) : v = w ∨ v = p ++ w := by
  cases hs : startsWith v p with
  | false => exact Or.inl (by rwa [skip_of_not hs] at h)
  | true =>
    obtain ⟨rest, rfl⟩ := startsWith_iff.mp hs
    rw [skip_append] at h
    exact Or.inr (by rw [h])

theorem skip_eq_nil {p v : Bytes} : skip p v = [] ↔ v = [] ∨ v = p := by
  constructor
  · intro h
    rcases skip_eq h with rfl | rfl <;> simp
  · rintro (rfl | rfl)
    · simp [skip]
    · simpa using skip_append v []

/-! ## Splitting a string -/

variable {p : Byte → Prop}

/-- The string does not start with a byte of the kind `p`. -/
def NotAhead (p : Byte → Prop) (v : Bytes) : Prop := ∀ x rest, v = x :: rest → ¬ p x

theorem notAhead_nil : NotAhead p [] := by
  intro x rest h
  cases h

theorem notAhead_cons {x : Byte} {rest : Bytes} : NotAhead p (x :: rest) ↔ ¬ p x := by
  constructor
  · intro h; exact h x rest rfl
  · intro h y ys he
    cases he
    exact h

theorem notAhead_append {u rest : Bytes} (hu : u ≠ []) :
    NotAhead p (u ++ rest) ↔ NotAhead p u := by
  cases u with
  | nil => exact absurd rfl hu
  | cons x xs => rw [List.cons_append, notAhead_cons, notAhead_cons]

/-- A string has no byte of a kind, or splits at the first one. -/
theorem split_first (p : Byte → Prop) (v : Bytes) :
    (∀ y ∈ v, ¬ p y) ∨ ∃ a x b, v = a ++ x :: b ∧ p x ∧ ∀ y ∈ a, ¬ p y := by
  induction v with
  | nil => left; simp
  | cons z v ih =>
    by_cases hz : p z
    · right; exact ⟨[], z, v, rfl, hz, by simp⟩
    · rcases ih with h | ⟨a, x, b, rfl, hx, ha⟩
      · left
        intro y hy
        rcases List.mem_cons.mp hy with rfl | hy
        · exact hz
        · exact h y hy
      · right
        refine ⟨z :: a, x, b, rfl, hx, ?_⟩
        intro y hy
        rcases List.mem_cons.mp hy with rfl | hy
        · exact hz
        · exact ha y hy

/-- A string splits after its longest run of bytes of a kind. -/
theorem split_run (p : Byte → Prop) (v : Bytes) :
    ∃ w rest, v = w ++ rest ∧ (∀ y ∈ w, p y) ∧ NotAhead p rest := by
  induction v with
  | nil => exact ⟨[], [], rfl, by simp, notAhead_nil⟩
  | cons z v ih =>
    by_cases hz : p z
    · obtain ⟨w, rest, rfl, hw, hr⟩ := ih
      refine ⟨z :: w, rest, rfl, ?_, hr⟩
      intro y hy
      rcases List.mem_cons.mp hy with rfl | hy
      · exact hz
      · exact hw y hy
    · exact ⟨[], z :: v, rfl, by simp, notAhead_cons.mpr hz⟩

theorem split_run_unique {w w' rest rest' : Bytes} (hw : ∀ y ∈ w, p y) (hw' : ∀ y ∈ w', p y)
    (hr : NotAhead p rest) (hr' : NotAhead p rest') (h : w ++ rest = w' ++ rest') :
    w = w' ∧ rest = rest' := by
  induction w generalizing w' with
  | nil =>
    cases w' with
    | nil => exact ⟨rfl, h⟩
    | cons y ys => exact absurd (hw' y (by simp)) (hr y (ys ++ rest') h)
  | cons x xs ih =>
    cases w' with
    | nil => exact absurd (hw x (by simp)) (hr' x (xs ++ rest) h.symm)
    | cons y ys =>
      simp only [List.cons_append, List.cons.injEq] at h
      obtain ⟨rfl, h⟩ := h
      obtain ⟨rfl, rfl⟩ := ih (fun z hz => hw z (by simp [hz])) (fun z hz => hw' z (by simp [hz])) h
      exact ⟨rfl, rfl⟩

theorem split_first_unique {a a' b b' : Bytes} {x x' : Byte} (ha : ∀ y ∈ a, ¬ p y)
    (ha' : ∀ y ∈ a', ¬ p y) (hx : p x) (hx' : p x') (h : a ++ x :: b = a' ++ x' :: b') :
    a = a' ∧ x = x' ∧ b = b' := by
  have hn : NotAhead (fun y => ¬ p y) (x :: b) := notAhead_cons.mpr (not_not.mpr hx)
  have hn' : NotAhead (fun y => ¬ p y) (x' :: b') := notAhead_cons.mpr (not_not.mpr hx')
  obtain ⟨ha, hb⟩ := split_run_unique ha ha' hn hn' h
  rw [List.cons.injEq] at hb
  exact ⟨ha, hb⟩

/-! ## The searches on a split string -/

theorem findFirstOf_none {v set : Bytes} (h : ∀ y ∈ v, y ∉ set) : findFirstOf v set = none := by
  unfold findFirstOf
  rw [List.findIdx?_eq_none_iff]
  intro y hy
  simpa using h y hy

theorem findFirstOf_split {a b set : Bytes} {x : Byte} (ha : ∀ y ∈ a, y ∉ set) (hx : x ∈ set) :
    findFirstOf (a ++ x :: b) set = some a.length := by
  unfold findFirstOf
  induction a with
  | nil => simp [List.findIdx?_cons, hx]
  | cons y a ih =>
    have hy : y ∉ set := ha y (by simp)
    rw [List.cons_append, List.findIdx?_cons, ih (fun z hz => ha z (by simp [hz]))]
    simp [hy]

theorem findFirstOf_byte_none {v : Bytes} {d : Byte} (h : d ∉ v) : findFirstOf v [d] = none := by
  refine findFirstOf_none fun y hy he => h ?_
  rwa [List.mem_singleton.mp he] at hy

theorem findFirstOf_byte {a b : Bytes} {d : Byte} (ha : d ∉ a) :
    findFirstOf (a ++ d :: b) [d] = some a.length := by
  refine findFirstOf_split (fun y hy he => ha ?_) (by simp)
  rwa [List.mem_singleton.mp he] at hy

theorem removePrefix_append (a b : Bytes) : removePrefix (a ++ b) (some a.length) = ret b := by
  simp [removePrefix]

theorem substrTo_append (a b : Bytes) : substrTo (a ++ b) (some a.length) = a := by
  simp [substrTo]

end SimpleServ.Cxx
