import SimpleServ.Utility.Percent

/-
  Which strings `percent_decode` (url.cpp) takes.

  `strictDecode` is what percent-decoding is for: a `%` that starts an escape is followed by
  two hexadecimal digits, and any other string is refused. The code gives `std::stoi` the two
  bytes behind a `%`, or what is left of them, and `std::stoi` is content with one digit, also
  behind white space or a sign.

  `decodesStrictly_iff`: the code does as `strictDecode` exactly on the strings whose escapes
  all have two digits, and on those with an escape that `std::stoi` finds no digit in.
-/

namespace SimpleServ.Utility

open SimpleServ.Cxx Outcome

def IsHex (c : Byte) : Prop := (hexDigit c).isSome = true

instance : DecidablePred IsHex := fun c => inferInstanceAs (Decidable ((hexDigit c).isSome = true))

/-- What `percent_decode` is to give, `none` for an error. -/
def strictDecode : Bytes → Option Bytes
  | [] => some []
  | c :: rest =>
    if c = chr '%' then
      match rest with
      | x :: y :: rest => do
        let high ← hexDigit x
        let low ← hexDigit y
        let decoded ← strictDecode rest
        return UInt8.ofNat (16 * high + low) :: decoded
      | _ => none
    else do
      let decoded ← strictDecode rest
      return c :: decoded

/-- The strings that `std::stoi` gets, if it throws on none of them. -/
def escapes : Bytes → List Bytes
  | [] => []
  | c :: rest => if c = chr '%' then rest.take 2 :: escapes (rest.drop 2) else escapes rest
termination_by str => str.length
decreasing_by
  · simp only [List.length_drop, List.length_cons]
    omega
  · simp

def TwoDigits (hex : Bytes) : Prop := ∃ x y, hex = [x, y] ∧ IsHex x ∧ IsHex y

/-- White space, or a sign. -/
def Leading (c : Byte) : Prop := isSpace c = true ∨ c = chr '+' ∨ c = chr '-'

/-- There is a digit at the start, or behind one byte that may lead a number. -/
def Readable (hex : Bytes) : Prop :=
  (∃ x rest, hex = x :: rest ∧ IsHex x) ∨ ∃ p x rest, hex = p :: x :: rest ∧ Leading p ∧ IsHex x

variable {c x y p : Byte} {hex rest s v : Bytes}

/-! ## `std::stoi` on two bytes -/

theorem hexDigit_bounds {n : Nat} (h : hexDigit c = some n) : 48 ≤ c.toNat ∧ n < 16 := by
  have h0 : (chr '0').toNat = 48 := rfl
  have h9 : (chr '9').toNat = 57 := rfl
  have ha : (chr 'a').toNat = 97 := rfl
  have hf : (chr 'f').toNat = 102 := rfl
  have hA : (chr 'A').toNat = 65 := rfl
  have hF : (chr 'F').toNat = 70 := rfl
  unfold hexDigit at h
  simp only [UInt8.le_iff_toNat_le] at h
  split at h
  · cases h
    omega
  · split at h
    · cases h
      omega
    · split at h
      · cases h
        omega
      · cases h

theorem Leading.lt (h : Leading c) : c.toNat < 48 := by
  have h13 : (13 : Byte).toNat = 13 := rfl
  rcases h with h | rfl | rfl
  · simp only [isSpace, Bool.or_eq_true, Bool.and_eq_true, decide_eq_true_eq,
      UInt8.le_iff_toNat_le] at h
    rcases h with rfl | h
    · decide
    · omega
  · decide
  · decide

theorem IsHex.not_leading (h : IsHex c) : ¬ Leading c := by
  obtain ⟨n, hn⟩ := Option.isSome_iff_exists.mp h
  have hb := hexDigit_bounds hn
  intro hl
  have := hl.lt
  omega

theorem hexValue_lt (digits : Bytes) : hexValue digits < 16 ^ digits.length := by
  induction digits using List.reverseRecOn with
  | nil => decide
  | append_singleton digits c ih =>
    have hc : (hexDigit c).getD 0 < 16 := by
      cases h : hexDigit c with
      | none => decide
      | some n => exact (hexDigit_bounds h).2
    have hv : hexValue (digits ++ [c]) = 16 * hexValue digits + (hexDigit c).getD 0 := by
      rw [hexValue, List.foldl_append]
      rfl
    rw [hv, List.length_append, List.length_singleton, Nat.pow_succ]
    omega

/-- The text behind white space and sign. -/
def afterSign (hex : Bytes) : Bytes := (takeSign (hex.dropWhile isSpace)).2

theorem takeSign_of_not (h : ¬ Leading x) :
    takeSign ((x :: rest).dropWhile isSpace) = (false, x :: rest) := by
  obtain ⟨hspace, hplus, hminus⟩ : ¬ isSpace x = true ∧ ¬ x = chr '+' ∧ ¬ x = chr '-' := by
    simpa only [Leading, not_or] using h
  rw [List.dropWhile_cons_of_neg hspace, takeSign, if_neg hminus, if_neg hplus]

theorem afterSign_of_not (h : ¬ Leading x) : afterSign (x :: rest) = x :: rest := by
  rw [afterSign, takeSign_of_not h]

theorem afterSign_of_leading (h : Leading p) :
    afterSign (p :: rest) = if isSpace p = true then afterSign rest else rest := by
  by_cases hs : isSpace p = true
  · rw [if_pos hs, afterSign, List.dropWhile_cons_of_pos hs, afterSign]
  · rw [if_neg hs, afterSign, List.dropWhile_cons_of_neg hs, takeSign]
    rcases h with h | rfl | rfl
    · exact absurd h hs
    · rw [if_neg (by decide), if_pos rfl]
    · rw [if_pos rfl]

/-- A digit comes first. -/
def StartsHex (v : Bytes) : Prop := ∃ x rest, v = x :: rest ∧ IsHex x

@[simp] theorem startsHex_nil : ¬ StartsHex [] := by
  rintro ⟨x, rest, h, -⟩
  cases h

@[simp] theorem startsHex_cons : StartsHex (x :: rest) ↔ IsHex x := by
  constructor
  · rintro ⟨_, _, h, hx⟩
    cases h
    exact hx
  · exact fun h => ⟨x, rest, rfl, h⟩

/-- A text of one byte has its digit there or nowhere. -/
theorem startsHex_afterSign_one (x : Byte) : StartsHex (afterSign [x]) ↔ IsHex x := by
  by_cases h : Leading x
  · have hn : afterSign [x] = [] := by
      rw [afterSign_of_leading h]
      exact ite_self _
    rw [hn]
    exact iff_of_false startsHex_nil fun hx => hx.not_leading h
  · rw [afterSign_of_not h, startsHex_cons]

theorem startsHex_afterSign_iff (hl : hex.length ≤ 2) : StartsHex (afterSign hex) ↔ Readable hex := by
  match hex, hl with
  | [], _ => exact iff_of_false startsHex_nil (by simp [Readable])
  | [x], _ =>
    rw [startsHex_afterSign_one]
    simp [Readable]
  | [p, x], _ =>
    by_cases h : Leading p
    · have hp : ¬ IsHex p := fun hx => hx.not_leading h
      have hr : Readable [p, x] ↔ IsHex x := by simp [Readable, hp, h]
      rw [hr, afterSign_of_leading h]
      split
      · exact startsHex_afterSign_one x
      · exact startsHex_cons
    · rw [afterSign_of_not h, startsHex_cons]
      simp [Readable, h]

theorem length_afterSign_le (hex : Bytes) : (afterSign hex).length ≤ hex.length := by
  have hd : (hex.dropWhile isSpace).length ≤ hex.length := (List.dropWhile_sublist _).length_le
  have ht (v : Bytes) : (takeSign v).2.length ≤ v.length := by
    unfold takeSign
    split
    · exact Nat.le_refl _
    · split
      · exact Nat.le_succ _
      · split
        · exact Nat.le_succ _
        · exact Nat.le_refl _
  exact (ht _).trans hd

/-- The digits that a number starts with. -/
def hexRun (v : Bytes) : Bytes := v.takeWhile fun c => (hexDigit c).isSome

theorem hexRun_cons (h : IsHex x) (rest : Bytes) : hexRun (x :: rest) = x :: hexRun rest :=
  List.takeWhile_cons_of_pos (p := fun c => (hexDigit c).isSome) h

theorem hexRun_eq_nil (h : ¬ StartsHex v) : hexRun v = [] := by
  cases v with
  | nil => rfl
  | cons x rest =>
    rw [startsHex_cons] at h
    exact List.takeWhile_cons_of_neg (p := fun c => (hexDigit c).isSome) h

theorem length_hexRun_le (v : Bytes) : (hexRun v).length ≤ v.length :=
  (List.takeWhile_sublist _).length_le

/-- Two bytes are too few for a `0x` that counts, and too few to leave the range of `int`. -/
theorem stoi16_eq (hl : hex.length ≤ 2) : stoi16 hex =
    if hexRun (afterSign hex) = [] then .throw .invalid_argument
    else ret (if (takeSign (hex.dropWhile isSpace)).1 then -(hexValue (hexRun (afterSign hex)) : Int)
      else hexValue (hexRun (afterSign hex))) := by
  have hlen := (length_afterSign_le hex).trans hl
  have hx : dropHexPrefix (afterSign hex) = afterSign hex := by
    match afterSign hex, hlen with
    | [], _ => rfl
    | [x], _ => rfl
    | [x, y], _ => rfl
  have hv : hexValue (hexRun (afterSign hex)) < 16 ^ 2 :=
    (hexValue_lt _).trans_le
      (Nat.pow_le_pow_right (by decide) ((length_hexRun_le _).trans hlen))
  unfold stoi16
  unfold afterSign hexRun at *
  dsimp only
  rw [hx]
  refine if_congr Iff.rfl rfl (if_neg ?_)
  split <;> omega

theorem stoi16_ret (hl : hex.length ≤ 2) (h : Readable hex) : ∃ n, stoi16 hex = ret n := by
  obtain ⟨x, rest, ha, hx⟩ := (startsHex_afterSign_iff hl).mpr h
  rw [stoi16_eq hl, ha, hexRun_cons hx, if_neg (List.cons_ne_nil _ _)]
  exact ⟨_, rfl⟩

theorem stoi16_throw (hl : hex.length ≤ 2) (h : ¬ Readable hex) :
    stoi16 hex = .throw .invalid_argument := by
  rw [stoi16_eq hl, hexRun_eq_nil (mt (startsHex_afterSign_iff hl).mp h), if_pos rfl]

theorem stoi16_twoDigits {high low : Nat} (hx : hexDigit x = some high) (hy : hexDigit y = some low) :
    stoi16 [x, y] = ret ((16 * high + low : Nat) : Int) := by
  have hh : IsHex x := by rw [IsHex, hx]; rfl
  have hl : IsHex y := by rw [IsHex, hy]; rfl
  have hr : hexRun [x, y] = [x, y] := by
    rw [hexRun_cons hh, hexRun_cons hl]
    rfl
  have hv : hexValue [x, y] = 16 * high + low := by simp [hexValue, hx, hy]
  have hlen : [x, y].length ≤ 2 := Nat.le_refl 2
  rw [stoi16_eq hlen, takeSign_of_not hh.not_leading, afterSign_of_not hh.not_leading, hr, hv]
  rfl

theorem intToChar_natCast {n : Nat} (h : n < 256) : intToChar n = UInt8.ofNat n := by
  have hn : ((n : Int) % 256).toNat = n := by omega
  rw [intToChar, hn]

/-! ## The loop -/

theorem escapes_percent (rest : Bytes) :
    escapes (chr '%' :: rest) = rest.take 2 :: escapes (rest.drop 2) := by
  rw [escapes, if_pos rfl]

theorem escapes_other (hc : c ≠ chr '%') (rest : Bytes) : escapes (c :: rest) = escapes rest := by
  rw [escapes, if_neg hc]

theorem percentDecode_percent (rest : Bytes) : percentDecode (chr '%' :: rest) = (do
    let char_code ← stoi16 (rest.take 2)
    let decoded ← percentDecode (rest.drop 2)
    return intToChar char_code :: decoded) := by
  rw [percentDecode, if_pos rfl]

theorem percentDecode_other (hc : c ≠ chr '%') (rest : Bytes) :
    percentDecode (c :: rest) = (do
      let decoded ← percentDecode rest
      return c :: decoded) := by
  rw [percentDecode, if_neg hc]

/-- How the decoder ends; by induction on the rounds of the loop. -/
theorem percentDecode_cases (s : Bytes) :
    ((∀ hex ∈ escapes s, Readable hex) ∧ ∃ v, percentDecode s = ret v) ∨
      ((∃ hex ∈ escapes s, ¬ Readable hex) ∧ ∃ e, percentDecode s = .throw e) := by
  induction s using percentDecode.induct with
  | case1 =>
    left
    refine ⟨fun hex hm => ?_, [], by rw [percentDecode]⟩
    rw [escapes] at hm
    cases hm
  | case2 rest ih =>
    have hl : (rest.take 2).length ≤ 2 := List.length_take_le 2 rest
    rw [escapes_percent, percentDecode_percent]
    by_cases hr : Readable (rest.take 2)
    · obtain ⟨n, hn⟩ := stoi16_ret hl hr
      rw [hn, ret_bind]
      rcases ih with ⟨ha, v, hv⟩ | ⟨⟨hex, hm, hh⟩, e, he⟩
      · refine Or.inl ⟨fun hex hm => ?_, _, by rw [hv]; rfl⟩
        rcases List.mem_cons.mp hm with rfl | hm
        · exact hr
        · exact ha hex hm
      · exact Or.inr ⟨⟨hex, List.mem_cons_of_mem _ hm, hh⟩, e, by rw [he]; rfl⟩
    · right
      exact ⟨⟨_, List.mem_cons_self, hr⟩, _, by rw [stoi16_throw hl hr]; rfl⟩
  | case3 c rest hc ih =>
    rw [escapes_other hc, percentDecode_other hc]
    rcases ih with ⟨ha, v, hv⟩ | ⟨hn, e, he⟩
    · exact Or.inl ⟨ha, _, by rw [hv]; rfl⟩
    · exact Or.inr ⟨hn, e, by rw [he]; rfl⟩

theorem strictDecode_other (hc : c ≠ chr '%') (rest : Bytes) :
    strictDecode (c :: rest) = (do
      let decoded ← strictDecode rest
      return c :: decoded) := by
  rw [strictDecode.eq_def]
  exact if_neg hc

theorem strictDecode_percent (x y : Byte) (rest : Bytes) :
    strictDecode (chr '%' :: x :: y :: rest) = (do
      let high ← hexDigit x
      let low ← hexDigit y
      let decoded ← strictDecode rest
      return UInt8.ofNat (16 * high + low) :: decoded) := by
  rw [strictDecode.eq_def]
  exact if_pos rfl

theorem strictDecode_notDigits (h : ¬ TwoDigits [x, y]) (rest : Bytes) :
    strictDecode (chr '%' :: x :: y :: rest) = none := by
  rw [strictDecode_percent]
  cases hx : hexDigit x with
  | none => rfl
  | some high =>
    cases hy : hexDigit y with
    | none => rfl
    | some low => exact absurd ⟨x, y, rfl, by rw [IsHex, hx]; rfl, by rw [IsHex, hy]; rfl⟩ h

/-- The strict decoder takes the strings whose escapes have two digits, and on these the code
    does the same. -/
theorem strictDecode_cases (s : Bytes) :
    ((∀ hex ∈ escapes s, TwoDigits hex) ∧ ∃ v, strictDecode s = some v ∧ percentDecode s = ret v) ∨
      ((∃ hex ∈ escapes s, ¬ TwoDigits hex) ∧ strictDecode s = none) := by
  induction s using percentDecode.induct with
  | case1 =>
    left
    refine ⟨fun hex hm => ?_, [], rfl, by rw [percentDecode]⟩
    rw [escapes] at hm
    cases hm
  | case2 rest ih =>
    rw [escapes_percent]
    rcases rest with _ | ⟨x, _ | ⟨y, rest⟩⟩
    · refine Or.inr ⟨⟨_, List.mem_cons_self, ?_⟩, rfl⟩
      rintro ⟨x, y, h, -⟩
      cases h
    · refine Or.inr ⟨⟨_, List.mem_cons_self, ?_⟩, rfl⟩
      rintro ⟨x, y, h, -⟩
      cases h
    · have ht : (x :: y :: rest).take 2 = [x, y] := rfl
      rw [percentDecode_percent, ht]
      by_cases h2 : TwoDigits [x, y]
      · rcases ih with ⟨ha, v, hv, hd⟩ | ⟨⟨hex, hm, hh⟩, hn⟩
        · obtain ⟨_, _, he, hx, hy⟩ := h2
          cases he
          obtain ⟨high, hx'⟩ := Option.isSome_iff_exists.mp hx
          obtain ⟨low, hy'⟩ := Option.isSome_iff_exists.mp hy
          have hlt : 16 * high + low < 256 := by
            have := (hexDigit_bounds hx').2
            have := (hexDigit_bounds hy').2
            omega
          refine Or.inl ⟨fun hex hm => ?_, UInt8.ofNat (16 * high + low) :: v, ?_, ?_⟩
          · rcases List.mem_cons.mp hm with rfl | hm
            · exact ⟨x, y, rfl, hx, hy⟩
            · exact ha hex hm
          · have hv' : strictDecode rest = some v := hv
            rw [strictDecode_percent, hx', hy', hv']
            rfl
          · rw [stoi16_twoDigits hx' hy', ret_bind, hd, ret_bind, intToChar_natCast hlt]
            rfl
        · refine Or.inr ⟨⟨hex, List.mem_cons_of_mem _ hm, hh⟩, ?_⟩
          have hn' : strictDecode rest = none := hn
          rw [strictDecode_percent, hn']
          cases hexDigit x <;> cases hexDigit y <;> rfl
      · exact Or.inr ⟨⟨_, List.mem_cons_self, h2⟩, strictDecode_notDigits h2 rest⟩
  | case3 c rest hc ih =>
    rw [escapes_other hc, percentDecode_other hc, strictDecode_other hc]
    rcases ih with ⟨ha, v, hv, hd⟩ | ⟨hn, he⟩
    · exact Or.inl ⟨ha, c :: v, by rw [hv]; rfl, by rw [hd]; rfl⟩
    · exact Or.inr ⟨hn, by rw [he]; rfl⟩

/-! ## What is decoded -/

/-- The code gives what the strict decoder gives, and throws where that refuses. -/
def DecodesStrictly (s : Bytes) : Prop :=
  match strictDecode s with
  | some v => percentDecode s = ret v
  | none => ∃ e, percentDecode s = .throw e

/-- **`percent_decode` is strict exactly on the strings whose escapes all have two digits, and
    on those with an escape that `std::stoi` cannot read.** -/
theorem decodesStrictly_iff (s : Bytes) : DecodesStrictly s ↔
    (∀ hex ∈ escapes s, TwoDigits hex) ∨ ∃ hex ∈ escapes s, ¬ Readable hex := by
  unfold DecodesStrictly
  rcases strictDecode_cases s with ⟨ha, v, hv, hd⟩ | ⟨⟨hex, hm, h2⟩, hn⟩
  · rw [hv]
    exact iff_of_true hd (Or.inl ha)
  · rw [hn]
    dsimp only
    rcases percentDecode_cases s with ⟨hr, v, hd⟩ | ⟨hu, he⟩
    · refine iff_of_false ?_ ?_
      · rintro ⟨e, he⟩
        rw [hd] at he
        cases he
      · rintro (ha | ⟨hex', hm', hu⟩)
        · exact h2 (ha hex hm)
        · exact hu (hr hex' hm')
    · exact iff_of_true he (Or.inr hu)

/-- An escape cut short is decoded all the same. -/
theorem not_decodesStrictly_cut : ¬ ∀ s, DecodesStrictly s := by
  intro h
  obtain ⟨e, he⟩ : ∃ e, percentDecode (lit "%4") = .throw e := h (lit "%4")
  have hd : percentDecode (lit "%4") = ret [4] := by
    show percentDecode (chr '%' :: [chr '4']) = _
    rw [percentDecode_percent, show [chr '4'].drop 2 = [] from rfl, percentDecode]
    rfl
  rw [hd] at he
  cases he

end SimpleServ.Utility
