import SimpleServ.Http.Parser
import SimpleServ.Http.Readers

/-
  How `parse_request_line` ends on every view.

  `LineHead` is the part of a request line before the version text, with the facts that make
  its parts unique: the gaps are the longest runs of blanks and the target ends at a space.
  `RequestLine s head version rest` is the language that is accepted, `CutLine` the views on
  which the parser throws, `StrayLine` those on which it leaves its view. On any other view
  it returns an error (`parseRequestLine_cases`).
-/

namespace SimpleServ.Http

open SimpleServ.Cxx SimpleServ.Utility StringParser Outcome

/-- A space or a tab. -/
def Blank (x : Byte) : Prop := x = asciiHT ∨ x = chr ' '

def Blanks (w : Bytes) : Prop := ∀ x ∈ w, Blank x

/-- Method, gap, target and second gap of a request line. The second gap is the space that
    ends the target and then `gap'`. -/
structure LineHead where
  method : HTTPMethod
  gap : Bytes
  target : Bytes
  gap' : Bytes
  gap_ne : gap ≠ []
  gap_blanks : Blanks gap
  target_ne : target ≠ []
  target_no_space : chr ' ' ∉ target
  target_ahead : NotAhead Blank target
  gap'_blanks : Blanks gap'

/-- The line with `x` behind its second gap. -/
def LineHead.text (head : LineHead) (x : Bytes) : Bytes :=
  head.method.string ++ (head.gap ++ (head.target ++ chr ' ' :: (head.gap' ++ x)))

/-- `s` is a request line that is accepted, followed by `rest`. -/
def RequestLine (s : Bytes) (head : LineHead) (version : HTTPVersion) (rest : Bytes) : Prop :=
  ∃ x, s = head.text x ∧ NotAhead Blank x ∧ VersionText x version (crlf ++ rest)

/-- `s` ends where the parser still looks at a byte with `head ()`. -/
def CutLine (s : Bytes) : Prop :=
  s = [] ∨ s = lit "P" ∨ ∃ head x, s = LineHead.text head x ∧ NotAhead Blank x ∧ CutVersion x

/-- `s` makes the parser leave its view: no method and no space, a method name with nothing
    behind it, or no space behind the target. -/
def StrayLine (s : Bytes) : Prop :=
  NoMethod s ∨ (∃ m, s = HTTPMethod.string m) ∨
    ∃ m w u, s = HTTPMethod.string m ++ (w ++ u) ∧ w ≠ [] ∧ Blanks w ∧ NotAhead Blank u ∧
      chr ' ' ∉ u

variable {str : Bytes} {c : Cursor str} {s x rest : Bytes} {head : LineHead}
  {version : HTTPVersion}

/-- The tail of `parse_request_line`, from the version on. -/
def lineTail (method : HTTPMethod) (url : Bytes) : ParserM str (Except ParserError HTTPRequest) := do
  let version ← versionStringToEnum
  if version = .HTTP_INVALID then
    return .error ⟨none⟩
  if let some e ← expect crlf then
    return .error e
  return .ok (HTTPRequest.new method url version)

/-- Up to the version the parser consumes exactly the head of the line. -/
theorem parseRequestLine_head (h : c.view = head.text x) (hx : NotAhead Blank x) :
    ∃ c', c'.view = x ∧
      parseRequestLine.run c = (lineTail head.method head.target).run c' := by
  obtain ⟨method, gap, target, gap', hg, hgb, ht, hts, hta, hgb'⟩ := head
  obtain ⟨g, gs, rfl⟩ := List.exists_cons_of_ne_nil hg
  obtain ⟨c1, h1, r1⟩ := (methodStringToEnum_yields h).run_bind _
  obtain ⟨c2, h2, r2⟩ := (expectTwo_yields h1 (hgb g (by simp))).run_bind _
  obtain ⟨c3, h3, r3⟩ := (consumeAllTwo_yields h2 (fun y hy => hgb y (by simp [hy]))
    ((notAhead_append ht).mpr hta)).run_bind _
  obtain ⟨c4, h4, r4⟩ := (nextToken_yields h3 hts).run_bind _
  obtain ⟨c5, h5, r5⟩ := (expectTwo_yields h4 (Or.inr rfl)).run_bind _
  obtain ⟨c6, h6, r6⟩ := (consumeAllTwo_yields h5 hgb' hx).run_bind _
  exact ⟨c6, h6, r1.trans (r2.trans (r3.trans (r4.trans (r5.trans r6))))⟩

theorem parseRequestLine_yields (h : RequestLine c.view head version rest) :
    Yields parseRequestLine c (.ok (HTTPRequest.new head.method head.target version))
      (At rest) := by
  obtain ⟨x, hs, hx, hv⟩ := h
  obtain ⟨c', hc', hr⟩ := parseRequestLine_head hs hx
  unfold Yields
  rw [hr]
  rw [← hc'] at hv
  refine (versionStringToEnum_yields hv).bind fun c1 h1 => ?_
  rw [if_neg hv.ne_invalid]
  exact (expect_yields h1).bind fun c2 h2 => yields_pure h2

theorem parseRequestLine_throws (h : CutLine c.view) : Throws parseRequestLine c := by
  rcases h with h | h | ⟨head, x, hs, hx, hv⟩
  · exact (methodStringToEnum_throws (Or.inl h)).bind
  · exact (methodStringToEnum_throws (Or.inr h)).bind
  · obtain ⟨c', hc', hr⟩ := parseRequestLine_head hs hx
    unfold Throws
    rw [hr]
    rw [← hc'] at hv
    exact (versionStringToEnum_throws hv).bind

theorem parseRequestLine_strays (h : StrayLine c.view) : Strays parseRequestLine c := by
  rcases h with h | ⟨m, h⟩ | ⟨m, w, u, h, hw, hwb, hu, hs⟩
  · exact (methodStringToEnum_strays h).bind
  · rw [← List.append_nil m.string] at h
    exact (methodStringToEnum_yields h).strays fun c1 h1 => (expectTwo_strays h1).bind
  · obtain ⟨g, gs, rfl⟩ := List.exists_cons_of_ne_nil hw
    refine (methodStringToEnum_yields h).strays fun c1 h1 => ?_
    refine (expectTwo_yields h1 (hwb g (by simp))).strays fun c2 h2 => ?_
    refine (consumeAllTwo_yields h2 (fun y hy => hwb y (by simp [hy])) hu).strays fun c3 h3 => ?_
    exact (nextToken_strays (by rw [h3]; exact hs)).bind

/-- A version text that no line end follows. -/
theorem lineTail_rejects (hc : c.view = x) (hv : VersionText x version rest)
    (hs : startsWith rest crlf = false) (method : HTTPMethod) (url : Bytes) :
    ∃ e b, Yields (lineTail method url) c (.error e) (At b) := by
  obtain ⟨c1, hr, h1⟩ := versionStringToEnum_yields (hc.symm ▸ hv)
  obtain ⟨e, he⟩ := expect_rejects (c := c1) (a := crlf) (by rw [h1]; exact hs)
  refine ⟨e, c1.view, Yields.bind (P := fun c2 => c2 = c1) ⟨c1, hr, rfl⟩ fun c2 h2 => ?_⟩
  subst h2
  rw [if_neg hv.ne_invalid]
  exact he.bind fun c3 h3 => yields_pure h3

/-- The end of the line after a head: cut short, accepted, or an error. -/
theorem lineTail_cases (hc : c.view = x) (method : HTTPMethod) (url : Bytes) :
    CutVersion x ∨ (∃ version rest, VersionText x version (crlf ++ rest)) ∨
      ∃ e rest, Yields (lineTail method url) c (.error e) (At rest) := by
  rcases version_cases x with h | ⟨version, rest, h⟩
  · exact Or.inl h
  · right
    cases hs : startsWith rest crlf with
    | true =>
      obtain ⟨b, rfl⟩ := startsWith_iff.mp hs
      exact Or.inl ⟨version, b, h⟩
    | false => exact Or.inr (lineTail_rejects hc h hs method url)

/-- Behind a method and a blank: a target without a space behind it, or a whole head. -/
theorem lineHead_split (m : HTTPMethod) {g : Byte} (hg : Blank g) (v : Bytes) :
    StrayLine (m.string ++ g :: v) ∨
      ∃ (head : LineHead) (x : Bytes), m.string ++ g :: v = head.text x ∧ NotAhead Blank x := by
  obtain ⟨w, t, rfl, hw, ht⟩ := split_run Blank v
  have hgw : Blanks (g :: w) := by
    intro y hy
    rcases List.mem_cons.mp hy with rfl | hy
    · exact hg
    · exact hw y hy
  by_cases hsp : chr ' ' ∈ t
  swap
  · exact Or.inl (Or.inr (Or.inr ⟨m, g :: w, t, rfl, by simp, hgw, ht, hsp⟩))
  · obtain ⟨u, t', rfl, hu⟩ := List.eq_append_cons_of_mem hsp
    have hune : u ≠ [] := by
      rintro rfl
      exact notAhead_cons.mp ht (Or.inr rfl)
    obtain ⟨w', x, rfl, hw', hx⟩ := split_run Blank t'
    exact Or.inr ⟨⟨m, g :: w, u, w', by simp, hgw, hune, hu, (notAhead_append hune).mp ht, hw'⟩,
      x, rfl, hx⟩

/-- How the request-line parser ends on a view. -/
theorem parseRequestLine_cases (c : Cursor str) :
    CutLine c.view ∨ StrayLine c.view ∨
    (∃ e rest, Yields parseRequestLine c (.error e) (At rest)) ∨
    ∃ head version rest, RequestLine c.view head version rest := by
  rcases methodStringToEnum_cases c with h | h | ⟨e, rest, h⟩ | ⟨m, rest, h⟩
  · exact Or.inl (h.imp_right Or.inl)
  · exact Or.inr (Or.inl (Or.inl h))
  · exact Or.inr (Or.inr (Or.inl ⟨e, rest, h.bind fun c1 h1 => yields_pure h1⟩))
  cases rest with
  | nil => exact Or.inr (Or.inl (Or.inr (Or.inl ⟨m, by rw [h, List.append_nil]⟩)))
  | cons g v =>
    by_cases hg : Blank g
    swap
    -- the byte behind the method is no blank
    · right; right; left
      obtain ⟨c1, hm, h1⟩ := methodStringToEnum_yields h
      obtain ⟨e, he⟩ := expectTwo_rejects h1 (fun hn => hg (Or.inl hn)) (fun hn => hg (Or.inr hn))
      refine ⟨e, g :: v, Yields.bind (P := fun c2 => c2 = c1) ⟨c1, hm, rfl⟩ fun c2 h2 => ?_⟩
      subst h2
      exact he.bind fun c3 h3 => yields_pure h3
    · rcases lineHead_split m hg v with hs | ⟨head, x, hx, hn⟩
      · exact Or.inr (Or.inl (h ▸ hs))
      rw [hx] at h
      obtain ⟨c', hc', hr⟩ := parseRequestLine_head h hn
      rcases lineTail_cases hc' head.method head.target with hv | ⟨version, b, hv⟩ | ⟨e, b, he⟩
      · exact Or.inl (Or.inr (Or.inr ⟨head, x, h, hn, hv⟩))
      · exact Or.inr (Or.inr (Or.inr ⟨head, version, b, x, h, hn, hv⟩))
      · right; right; left
        unfold Yields
        rw [hr]
        exact ⟨e, b, he⟩

end SimpleServ.Http
