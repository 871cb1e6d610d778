import SimpleServ.Cxx.Text
import SimpleServ.Lib.OrderedMap

/-
  `percent_encode` and `percent_decode` (url.cpp).

  The encoder writes `%` and the character code in decimal; the decoder reads the two bytes
  behind a `%` with `std::stoi` in base 16. So the decoder does not undo the encoder
  (`percentDecode_percentEncode_iff`), but the encoding loses nothing: `readDecimal` gets
  the string back, and `percentEncode_injective` follows.

  `stoi16` is `std::stoi (str, nullptr, 16)`: white space, a sign, a `0x` before a digit,
  and the longest run of digits.
-/

namespace SimpleServ.Utility

open SimpleServ.Cxx Outcome

/-! ## `std::stoi` in base 16 -/

/-- `isspace`. -/
def isSpace (c : Byte) : Bool := c = chr ' ' || (9 ≤ c && c ≤ 13)

/-- The value of a hexadecimal digit. -/
def hexDigit (c : Byte) : Option Nat :=
  if chr '0' ≤ c ∧ c ≤ chr '9' then some (c.toNat - (chr '0').toNat)
  else if chr 'a' ≤ c ∧ c ≤ chr 'f' then some (c.toNat - (chr 'a').toNat + 10)
  else if chr 'A' ≤ c ∧ c ≤ chr 'F' then some (c.toNat - (chr 'A').toNat + 10)
  else none

/-- An optional sign: is it negative, and what follows. -/
def takeSign : Bytes → Bool × Bytes
  | [] => (false, [])
  | c :: rest =>
    if c = chr '-' then (true, rest) else if c = chr '+' then (false, rest) else (false, c :: rest)

/-- An optional `0x`, which counts only before a digit. -/
def dropHexPrefix : Bytes → Bytes
  | z :: x :: d :: rest =>
    if z = chr '0' ∧ (x = chr 'x' ∨ x = chr 'X') ∧ (hexDigit d).isSome then d :: rest
    else z :: x :: d :: rest
  | v => v

def hexValue (digits : Bytes) : Nat :=
  digits.foldl (fun value c => 16 * value + (hexDigit c).getD 0) 0

def stoi16 (str : Bytes) : Outcome Int :=
  let (negative, rest) := takeSign (str.dropWhile isSpace)
  let digits := (dropHexPrefix rest).takeWhile fun c => (hexDigit c).isSome
  if digits = [] then .throw .invalid_argument
  else
    let value : Int := if negative then -hexValue digits else hexValue digits
    if value < -2 ^ 31 ∨ 2 ^ 31 ≤ value then .throw .out_of_range else ret value

/-! ## The two functions -/

/-- The characters of the `switch`. -/
def reserved : Bytes := lit " !\"#$%&'()*+,/:;=?@[]"

def percentEncode (str : Bytes) : Bytes :=
  str.flatMap fun current_char =>
    if current_char ∈ reserved then lit "%" ++ decimal (charToInt current_char) else [current_char]

/-- `static_cast<char>` of an `int`. -/
def intToChar (char_code : Int) : Byte := UInt8.ofNat (char_code % 256).toNat

/-- The loop from an index on is a function of what stands there: `i += 2` and `i++` leave
    out the two bytes that `substr` took, or fewer at the end. -/
def percentDecode : Bytes → Outcome Bytes
  | [] => ret []
  | c :: rest =>
    if c = chr '%' then do
      let hex := rest.take 2
      let char_code ← stoi16 hex
      let decoded ← percentDecode (rest.drop 2)
      return intToChar char_code :: decoded
    else do
      let decoded ← percentDecode rest
      return c :: decoded
termination_by str => str.length
decreasing_by
  · simp only [List.length_drop, List.length_cons]
    omega
  · simp

/-! ## One escape -/

variable {c : Byte} {s : Bytes}

/-- The escape of a character: `%` and the two digits of its code, base 10. -/
structure Escape (c : Byte) : Prop where
  text : lit "%" ++ decimal (charToInt c) = [chr '%', 48 + c / 10, 48 + c % 10]
  hex : ∃ n, stoi16 [48 + c / 10, 48 + c % 10] = ret n ∧ intToChar n = 16 * (c / 10) + c % 10
  bounds : 32 ≤ c.toNat ∧ c.toNat < 94

theorem escape_of_reserved (hc : c ∈ reserved) : Escape c := by
  obtain ⟨x, hx, rfl⟩ := List.mem_map.mp hc
  simp only [String.reduceToList, List.mem_cons, List.not_mem_nil, or_false] at hx
  casesm* _ ∨ _ <;> subst x <;> exact ⟨rfl, ⟨_, rfl, rfl⟩, by decide⟩

/-- The digits read base 16 are another character. -/
theorem Escape.hex_ne (h : Escape c) : 16 * (c / 10) + c % 10 ≠ c := by
  intro he
  have hn := congrArg UInt8.toNat he
  have hb := h.bounds
  simp at hn
  omega

theorem Escape.decimal (h : Escape c) : 10 * (48 + c / 10 - 48) + (48 + c % 10 - 48) = c := by
  have hb := h.bounds
  apply UInt8.toNat_inj.mp
  simp
  omega

theorem Escape.digits (h : Escape c) {y : Byte} (hy : y ∈ [48 + c / 10, 48 + c % 10]) :
    48 ≤ y.toNat ∧ y.toNat ≤ 57 := by
  have hb := h.bounds
  rcases List.mem_pair.mp hy with rfl | rfl
  · simp
    omega
  · simp
    omega

/-- What the decoder makes of an encoded character. -/
def reread (c : Byte) : Byte := if c ∈ reserved then 16 * (c / 10) + c % 10 else c

theorem reread_eq_iff : reread c = c ↔ c ∉ reserved := by
  unfold reread
  by_cases hc : c ∈ reserved
  · rw [if_pos hc]
    exact iff_of_false (escape_of_reserved hc).hex_ne (not_not.mpr hc)
  · rw [if_neg hc]
    exact iff_of_true rfl hc

theorem percentEncode_cons (c : Byte) (s : Bytes) : percentEncode (c :: s) =
    (if c ∈ reserved then [chr '%', 48 + c / 10, 48 + c % 10] else [c]) ++ percentEncode s := by
  unfold percentEncode
  rw [List.flatMap_cons]
  by_cases hc : c ∈ reserved
  · rw [if_pos hc, if_pos hc, (escape_of_reserved hc).text]
  · rw [if_neg hc, if_neg hc]

/-! ## The round trip -/

/-- What the decoder makes of an encoded string. -/
theorem percentDecode_percentEncode (s : Bytes) :
    percentDecode (percentEncode s) = ret (s.map reread) := by
  induction s with
  | nil => rw [percentEncode, List.flatMap_nil, percentDecode, List.map_nil]
  | cons c s ih =>
    rw [percentEncode_cons, List.map_cons, reread]
    by_cases hc : c ∈ reserved
    · obtain ⟨n, hn, hi⟩ := (escape_of_reserved hc).hex
      rw [if_pos hc, if_pos hc, List.cons_append, percentDecode, if_pos rfl]
      have ht : ([48 + c / 10, 48 + c % 10] ++ percentEncode s).take 2 =
          [48 + c / 10, 48 + c % 10] := rfl
      have hd : ([48 + c / 10, 48 + c % 10] ++ percentEncode s).drop 2 = percentEncode s := rfl
      dsimp only
      rw [ht, hd, hn, ih, ret_bind, ret_bind, hi]
      rfl
    · have hp : c ≠ chr '%' := by
        rintro rfl
        exact hc (by decide)
      rw [if_neg hc, if_neg hc, List.singleton_append, percentDecode, if_neg hp, ih]
      rfl

/-- **`percent_decode` undoes `percent_encode` exactly on the strings without a reserved
    character.** -/
theorem percentDecode_percentEncode_iff (s : Bytes) :
    percentDecode (percentEncode s) = ret s ↔ ∀ c ∈ s, c ∉ reserved := by
  rw [percentDecode_percentEncode, ret.injEq]
  constructor
  · intro h c hc
    obtain ⟨i, hi, rfl⟩ := List.getElem_of_mem hc
    have hg : (s.map reread)[i]? = s[i]? := by rw [h]
    rw [List.getElem?_map, List.getElem?_eq_getElem hi, Option.map_some, Option.some.injEq] at hg
    exact reread_eq_iff.mp hg
  · intro h
    conv_rhs => rw [← List.map_id s]
    exact List.map_congr_left fun c hc => reread_eq_iff.mpr (h c hc)

/-- A space is written `%32` and read back as `2`. -/
theorem percentDecode_percentEncode_space : ¬ ∀ s, percentDecode (percentEncode s) = ret s := by
  intro h
  have hs := h (lit " ")
  rw [percentDecode_percentEncode, ret.injEq] at hs
  exact absurd hs (by decide)

/-! ## Nothing is lost -/

/-- Reads decimal escapes back. -/
def readDecimal : Bytes → Bytes
  | c :: d :: e :: rest =>
    if c = chr '%' then (10 * (d - 48) + (e - 48)) :: readDecimal rest
    else c :: readDecimal (d :: e :: rest)
  | c :: rest => c :: readDecimal rest
  | [] => []

theorem readDecimal_cons (hc : c ≠ chr '%') (s : Bytes) :
    readDecimal (c :: s) = c :: readDecimal s := by
  match s with
  | [] => rw [readDecimal]; simp
  | [d] => rw [readDecimal]; simp
  | d :: e :: rest => rw [readDecimal, if_neg hc]

theorem readDecimal_percentEncode (s : Bytes) : readDecimal (percentEncode s) = s := by
  induction s with
  | nil => rw [percentEncode, List.flatMap_nil, readDecimal]
  | cons c s ih =>
    rw [percentEncode_cons]
    by_cases hc : c ∈ reserved
    · rw [if_pos hc, List.cons_append, List.cons_append, List.cons_append, readDecimal, if_pos rfl,
        (escape_of_reserved hc).decimal, List.nil_append, ih]
    · have hp : c ≠ chr '%' := by
        rintro rfl
        exact hc (by decide)
      rw [if_neg hc, List.singleton_append, readDecimal_cons hp, ih]

theorem percentEncode_injective : Function.Injective percentEncode :=
  Function.LeftInverse.injective readDecimal_percentEncode

/-- The characters that separate the parts of a query. -/
def separators : Bytes := [chr '?', chr '&', chr '=']

theorem separator_reserved {y : Byte} (hy : y ∈ separators) : y ∈ reserved := by
  simp only [separators, List.mem_cons, List.not_mem_nil, or_false] at hy
  rcases hy with rfl | rfl | rfl <;> decide

theorem separator_not_digit {y : Byte} (hy : y ∈ separators) : ¬ (48 ≤ y.toNat ∧ y.toNat ≤ 57) := by
  simp only [separators, List.mem_cons, List.not_mem_nil, or_false] at hy
  rcases hy with rfl | rfl | rfl <;> decide

/-- An encoded string has no separator in it. -/
theorem percentEncode_no_separator (s : Bytes) : ∀ y ∈ percentEncode s, y ∉ separators := by
  induction s with
  | nil => intro y hy; rw [percentEncode, List.flatMap_nil] at hy; cases hy
  | cons c s ih =>
    intro y hy
    rw [percentEncode_cons, List.mem_append] at hy
    rcases hy with hy | hy
    · by_cases hc : c ∈ reserved
      · rw [if_pos hc, List.mem_cons] at hy
        rcases hy with rfl | hy
        · decide
        · have hd := (escape_of_reserved hc).digits hy
          exact fun hs => separator_not_digit hs hd
      · rw [if_neg hc, List.mem_singleton] at hy
        subst hy
        exact fun hs => hc (separator_reserved hs)
    · exact ih y hy

end SimpleServ.Utility
