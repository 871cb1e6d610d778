import SimpleServ.Http.Message

/-
  How `method_string_to_enum` and `version_string_to_enum` end on every view.

  A method is read exactly where the view starts with its name (`methodStringToEnum_yields`,
  `methodStringToEnum_cases`). The reader throws on an empty view and on the single letter
  `P`, and strays when the first byte starts no method and no space follows.

  `VersionText x v rest`: the version reader takes a text from `x`, calls it `v` and leaves
  `rest`. `CutVersion x`: it looks at a byte behind the end of `x` and throws. One of the two
  holds of every view (`versionStringToEnum_cases`).
-/

namespace SimpleServ.Http

open SimpleServ.Cxx SimpleServ.Utility StringParser Outcome

variable {str : Bytes} {c : Cursor str} {x : Byte} {v w rest : Bytes} {m : HTTPMethod}

/-! ## Methods -/

theorem moveExpect_yields (h : c.view = x :: (w ++ rest)) :
    Yields (moveExpect m w) c (.ok m) (At rest) := by
  refine (move_one_yields h).bind fun c1 h1 => ?_
  exact (expect_yields h1).bind fun c2 h2 => yields_pure h2

theorem moveExpect_rejects (h : c.view = x :: v) (hw : startsWith v w = false) :
    ∃ e rest, Yields (moveExpect m w) c (.error e) (At rest) := by
  obtain ⟨c1, hm, h1⟩ := move_one_yields h
  obtain ⟨e, he⟩ := expect_rejects (c := c1) (a := w) (by rw [h1]; exact hw)
  refine ⟨e, c1.view, Yields.bind (P := fun c2 => c2 = c1) ⟨c1, hm, rfl⟩ fun c2 h2 => ?_⟩
  subst h2
  exact he.bind fun c3 h3 => yields_pure h3

theorem moveExpect_cases (h : c.view = x :: v) (m : HTTPMethod) (w : Bytes) :
    (∃ e rest, Yields (moveExpect m w) c (.error e) (At rest)) ∨
      ∃ rest, v = w ++ rest ∧ Yields (moveExpect m w) c (.ok m) (At rest) := by
  cases hw : startsWith v w with
  | false => exact Or.inl (moveExpect_rejects h hw)
  | true =>
    obtain ⟨rest, rfl⟩ := startsWith_iff.mp hw
    exact Or.inr ⟨rest, rfl, moveExpect_yields h⟩

/-- The first bytes of the method names. -/
def methodLetters : Bytes := [chr 'G', chr 'P', chr 'D', chr 'H', chr 'O', chr 'T', chr 'C']

/-- No method starts like `v`, and no space ends its first token. -/
def NoMethod (v : Bytes) : Prop := ∃ x rest, v = x :: rest ∧ x ∉ methodLetters ∧ chr ' ' ∉ v

theorem methodStringToEnum_run (h : c.view = x :: v) :
    (methodStringToEnum : ParserM str _).run c = (methodSwitch x).run c := by
  obtain ⟨c', hc, hv⟩ := head_yields h
  rw [methodStringToEnum, StateT.run_bind, hc]
  rw [← h] at hv
  rw [Cursor.ext hv]
  rfl

theorem switch_plain (str : Bytes) {m : HTTPMethod} (hm : m ≠ .POST ∧ m ≠ .PUT) :
    ∃ x w, m.string = x :: w ∧ (methodSwitch x : ParserM str _) = moveExpect m w := by
  cases m with
  | GET => exact ⟨chr 'G', lit "ET", rfl, rfl⟩
  | POST => exact absurd rfl hm.1
  | PUT => exact absurd rfl hm.2
  | DELETE => exact ⟨chr 'D', lit "ELETE", rfl, rfl⟩
  | HEAD => exact ⟨chr 'H', lit "EAD", rfl, rfl⟩
  | OPTIONS => exact ⟨chr 'O', lit "PTIONS", rfl, rfl⟩
  | TRACE => exact ⟨chr 'T', lit "RACE", rfl, rfl⟩
  | CONNECT => exact ⟨chr 'C', lit "ONNECT", rfl, rfl⟩

/-- `case 'P'`: the second byte decides between `POST` and `PUT`. -/
theorem switch_P_run (h : c.view = chr 'P' :: x :: v) :
    (x = chr 'O' ∧ (methodSwitch (chr 'P') : ParserM str _).run c =
      (do move 1; moveExpect .POST (lit "ST") : ParserM str _).run c) ∨
    (x ≠ chr 'O' ∧ (methodSwitch (chr 'P') : ParserM str _).run c =
      (moveExpect .PUT (lit "UT")).run c) := by
  obtain ⟨c1, hm, h1⟩ := move_one_yields h
  obtain ⟨c2, hh, h2⟩ := head_yields h1
  rw [← h1] at h2
  obtain rfl : c2 = c1 := Cursor.ext h2
  have hs : (methodSwitch (chr 'P') : ParserM str _).run c =
      (if x = chr 'O' then moveExpect .POST (lit "ST")
        else do let res ← expect (lit "UT"); return transformFn .PUT res : ParserM str _).run c2 := by
    rw [show (methodSwitch (chr 'P') : ParserM str _) = (do
      move 1
      let c' ← head
      if c' = chr 'O' then moveExpect .POST (lit "ST")
      else
        let res ← expect (lit "UT")
        return transformFn .PUT res) from rfl, StateT.run_bind, hm, ret_bind, StateT.run_bind, hh]
    rfl
  by_cases hx : x = chr 'O'
  · left
    refine ⟨hx, ?_⟩
    rw [hs, if_pos hx, StateT.run_bind, hm]
    rfl
  · right
    refine ⟨hx, ?_⟩
    rw [hs, if_neg hx]
    conv_rhs => rw [moveExpect, StateT.run_bind, hm]
    rfl

theorem methodStringToEnum_yields (h : c.view = m.string ++ rest) :
    Yields methodStringToEnum c (.ok m) (At rest) := by
  by_cases hm : m ≠ .POST ∧ m ≠ .PUT
  · obtain ⟨x, w, hs, hsw⟩ := switch_plain str hm
    rw [hs, List.cons_append] at h
    unfold Yields
    rw [methodStringToEnum_run h, hsw]
    exact moveExpect_yields h
  · obtain rfl | rfl : m = .POST ∨ m = .PUT := by
      by_contra hn
      exact hm (not_or.mp hn)
    · have h' : c.view = chr 'P' :: chr 'O' :: (lit "ST" ++ rest) := h
      rcases switch_P_run h' with ⟨-, hsw⟩ | ⟨hn, -⟩
      · unfold Yields
        rw [methodStringToEnum_run h', hsw]
        exact (move_one_yields h').bind fun c1 h1 => moveExpect_yields h1
      · exact absurd rfl hn
    · have h' : c.view = chr 'P' :: chr 'U' :: (lit "T" ++ rest) := h
      rcases switch_P_run h' with ⟨hn, -⟩ | ⟨-, hsw⟩
      · exact absurd hn (by decide)
      · unfold Yields
        rw [methodStringToEnum_run h', hsw]
        exact moveExpect_yields (w := lit "UT") h

theorem methodStringToEnum_throws (h : c.view = [] ∨ c.view = lit "P") :
    Throws methodStringToEnum c := by
  rcases h with h | h
  · exact (head_throws h).bind
  · have h' : c.view = [chr 'P'] := h
    unfold Throws
    rw [methodStringToEnum_run h']
    exact (move_one_yields h').throws fun c1 h1 => (head_throws h1).bind

/-- The `default` case of the switch. -/
theorem switch_default (hx : x ∉ methodLetters) :
    (methodSwitch x : ParserM str _) = (do
      let token ← nextToken (chr ' ')
      return .error (parserError (lit "Invalid HTTP method string: " ++ token))) := by
  simp only [methodLetters, List.mem_cons, not_or] at hx
  simp [methodSwitch, hx]

theorem methodStringToEnum_strays (h : NoMethod c.view) : Strays methodStringToEnum c := by
  obtain ⟨x, rest, hv, hx, hs⟩ := h
  unfold Strays
  rw [methodStringToEnum_run hv, switch_default hx]
  exact (nextToken_strays hs).bind

theorem switch_letter (str : Bytes) (hx : x ∈ methodLetters) (hP : x ≠ chr 'P') :
    ∃ m w, HTTPMethod.string m = x :: w ∧ (methodSwitch x : ParserM str _) = moveExpect m w := by
  simp only [methodLetters, List.mem_cons, List.not_mem_nil, or_false] at hx
  rcases hx with rfl | rfl | rfl | rfl | rfl | rfl | rfl
  · exact ⟨.GET, lit "ET", rfl, rfl⟩
  · exact absurd rfl hP
  · exact ⟨.DELETE, lit "ELETE", rfl, rfl⟩
  · exact ⟨.HEAD, lit "EAD", rfl, rfl⟩
  · exact ⟨.OPTIONS, lit "PTIONS", rfl, rfl⟩
  · exact ⟨.TRACE, lit "RACE", rfl, rfl⟩
  · exact ⟨.CONNECT, lit "ONNECT", rfl, rfl⟩

theorem letter_P_cases (h : c.view = chr 'P' :: x :: v) :
    (∃ e rest, Yields methodStringToEnum c (.error e) (At rest)) ∨
      ∃ m rest, chr 'P' :: x :: v = HTTPMethod.string m ++ rest := by
  unfold Yields
  rw [methodStringToEnum_run h]
  rcases switch_P_run h with ⟨rfl, hsw⟩ | ⟨-, hsw⟩
  · rw [hsw]
    cases hw : startsWith v (lit "ST") with
    | true =>
      obtain ⟨rest, rfl⟩ := startsWith_iff.mp hw
      exact Or.inr ⟨.POST, rest, rfl⟩
    | false =>
      left
      obtain ⟨c1, hm, h1⟩ := move_one_yields h
      obtain ⟨e, rest, he⟩ := moveExpect_rejects (m := .POST) h1 hw
      refine ⟨e, rest, Yields.bind (P := fun c2 => c2 = c1) ⟨c1, hm, rfl⟩ fun c2 h2 => ?_⟩
      subst h2
      exact he
  · rw [hsw]
    rcases moveExpect_cases h .PUT (lit "UT") with he | ⟨rest, hw, -⟩
    · exact Or.inl he
    · exact Or.inr ⟨.PUT, rest, by rw [hw]; rfl⟩

/-- How the method reader ends on a view. -/
theorem methodStringToEnum_cases (c : Cursor str) :
    (c.view = [] ∨ c.view = lit "P") ∨ NoMethod c.view ∨
    (∃ e rest, Yields methodStringToEnum c (.error e) (At rest)) ∨
    ∃ m rest, c.view = HTTPMethod.string m ++ rest := by
  cases hv : c.view with
  | nil => exact Or.inl (Or.inl rfl)
  | cons x v =>
    by_cases hx : x ∈ methodLetters
    · by_cases hP : x = chr 'P'
      · subst hP
        cases v with
        | nil => exact Or.inl (Or.inr rfl)
        | cons y v => exact Or.inr (Or.inr (letter_P_cases hv))
      · obtain ⟨m, w, hs, hsw⟩ := switch_letter str hx hP
        right; right
        unfold Yields
        rw [methodStringToEnum_run hv, hsw]
        rcases moveExpect_cases hv m w with he | ⟨rest, rfl, -⟩
        · exact Or.inl he
        · exact Or.inr ⟨m, rest, by rw [hs, List.cons_append]⟩
    · right
      by_cases hs : chr ' ' ∈ c.view
      · right; left
        obtain ⟨u, rest, hu, hn⟩ := List.eq_append_cons_of_mem hs
        unfold Yields
        rw [methodStringToEnum_run hv, switch_default hx]
        exact ⟨_, _, (nextToken_yields hu hn).bind fun c1 h1 => yields_pure h1⟩
      · exact Or.inl ⟨x, v, rfl, hx, hv ▸ hs⟩

/-! ## Versions -/

/-- The version reader takes a text from the view, calls it `version` and leaves the rest. -/
inductive VersionText (view : Bytes) : HTTPVersion → Bytes → Prop where
  | http20 {z : Bytes} : skip (lit "HTTP/") view = chr '2' :: z →
      VersionText view .HTTP_2_0 (skip (lit ".0") z)
  | http10 {x : Byte} {z rest : Bytes} : skip (lit "HTTP/") view = x :: z → x ≠ chr '2' →
      skip (lit "1.") z = chr '0' :: rest → VersionText view .HTTP_1_0 rest
  | http11 {x y : Byte} {z w : Bytes} : skip (lit "HTTP/") view = x :: z → x ≠ chr '2' →
      skip (lit "1.") z = y :: w → y ≠ chr '0' → VersionText view .HTTP_1_1 (skip (lit "1") w)

theorem VersionText.ne_invalid {version : HTTPVersion} (h : VersionText v version rest) :
    version ≠ .HTTP_INVALID := by
  cases h <;> decide

/-- The text ends where the version reader still looks at a byte. -/
def CutVersion (view : Bytes) : Prop :=
  view = [] ∨ view = lit "HTTP/" ∨
    ∃ x, x ≠ chr '2' ∧ (view = [x] ∨ view = lit "HTTP/" ++ [x] ∨
      view = x :: lit "1." ∨ view = lit "HTTP/" ++ x :: lit "1.")

/-- `CutVersion` by what the two ignored `expect`s leave of the view. -/
theorem cutVersion_iff : CutVersion v ↔ skip (lit "HTTP/") v = [] ∨
    ∃ x z, skip (lit "HTTP/") v = x :: z ∧ x ≠ chr '2' ∧ skip (lit "1.") z = [] := by
  constructor
  · rintro (rfl | rfl | ⟨x, hx, rfl | rfl | rfl | rfl⟩)
    · exact Or.inl rfl
    · exact Or.inl rfl
    · have hs : startsWith [x] (lit "HTTP/") = false := startsWith_of_short (by simp [lit])
      exact Or.inr ⟨x, [], skip_of_not hs, hx, rfl⟩
    · exact Or.inr ⟨x, [], skip_append _ _, hx, rfl⟩
    · have hs : startsWith (x :: lit "1.") (lit "HTTP/") = false :=
        startsWith_of_short (by simp [lit])
      exact Or.inr ⟨x, lit "1.", skip_of_not hs, hx, rfl⟩
    · exact Or.inr ⟨x, lit "1.", skip_append _ _, hx, rfl⟩
  · rintro (h | ⟨x, z, h, hx, hz⟩)
    · rcases skip_eq_nil.mp h with rfl | rfl
      · exact Or.inl rfl
      · exact Or.inr (Or.inl rfl)
    · right; right
      refine ⟨x, hx, ?_⟩
      rcases skip_eq_nil.mp hz with rfl | rfl <;> rcases skip_eq h with rfl | rfl <;> simp

theorem versionStringToEnum_throws (h : CutVersion c.view) : Throws versionStringToEnum c := by
  obtain ⟨_, he⟩ := expect_skips (lit "HTTP/") c
  refine he.throws fun c1 h1 => ?_
  rcases cutVersion_iff.mp h with h | ⟨x, z, h, hx, hz⟩
  · exact (head_throws (h1.trans h)).bind
  · refine (head_yields (h1.trans h)).throws fun c2 h2 => ?_
    rw [if_neg hx]
    refine (move_one_yields h2).throws fun c3 h3 => ?_
    obtain ⟨_, he'⟩ := expect_skips (lit "1.") c3
    refine he'.throws fun c4 h4 => ?_
    exact (head_throws (by rw [h4, h3, hz])).bind

theorem versionStringToEnum_yields {version : HTTPVersion}
    (h : VersionText c.view version rest) : Yields versionStringToEnum c version (At rest) := by
  obtain ⟨_, he⟩ := expect_skips (lit "HTTP/") c
  refine he.bind fun c1 h1 => ?_
  cases h with
  | http20 h =>
    refine (head_yields (h1.trans h)).bind fun c2 h2 => ?_
    rw [if_pos rfl]
    refine (move_one_yields h2).bind fun c3 h3 => ?_
    obtain ⟨_, he'⟩ := expect_skips (lit ".0") c3
    exact he'.bind fun c4 h4 => yields_pure (by rw [At, h4, h3])
  | http10 h hx hz =>
    refine (head_yields (h1.trans h)).bind fun c2 h2 => ?_
    rw [if_neg hx]
    refine (move_one_yields h2).bind fun c3 h3 => ?_
    obtain ⟨_, he'⟩ := expect_skips (lit "1.") c3
    refine he'.bind fun c4 h4 => ?_
    refine (head_yields (by rw [h4, h3, hz])).bind fun c5 h5 => ?_
    rw [if_pos rfl]
    exact (move_one_yields h5).bind fun c6 h6 => yields_pure h6
  | http11 h hx hz hy =>
    refine (head_yields (h1.trans h)).bind fun c2 h2 => ?_
    rw [if_neg hx]
    refine (move_one_yields h2).bind fun c3 h3 => ?_
    obtain ⟨_, he'⟩ := expect_skips (lit "1.") c3
    refine he'.bind fun c4 h4 => ?_
    refine (head_yields (by rw [h4, h3, hz])).bind fun c5 h5 => ?_
    rw [if_neg hy]
    refine (move_one_yields h5).bind fun c6 h6 => ?_
    obtain ⟨_, he''⟩ := expect_skips (lit "1") c6
    exact he''.bind fun c7 h7 => yields_pure (by rw [At, h7, h6])

/-- Every view is cut short or has a version text. -/
theorem version_cases (v : Bytes) :
    CutVersion v ∨ ∃ version rest, VersionText v version rest := by
  rw [cutVersion_iff]
  cases h : skip (lit "HTTP/") v with
  | nil => exact Or.inl (Or.inl rfl)
  | cons x z =>
    by_cases hx : x = chr '2'
    · subst hx
      exact Or.inr ⟨_, _, .http20 h⟩
    · cases hz : skip (lit "1.") z with
      | nil => exact Or.inl (Or.inr ⟨x, z, rfl, hx, hz⟩)
      | cons y z' =>
        right
        by_cases hy : y = chr '0'
        · subst hy
          exact ⟨_, _, .http10 h hx hz⟩
        · exact ⟨_, _, .http11 h hx hz hy⟩

end SimpleServ.Http
