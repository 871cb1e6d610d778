import SimpleServ.Http.Language

/-
  Where the parser accepts more than the grammar of HTTP, and where it does not.

  `SpelledLine s m u v`: `s` starts with the request line that spells method `m`, target `u`
  and version `v`. The parser reports what the line spells exactly on the texts of
  `StrictLine` (`accepted_spelled_iff`): the version reader drops the pieces of `HTTP/1.1`
  where it finds them and goes on where it does not, and the target runs to a space over
  any line end.

  An accepted header block is the concatenation of its lines exactly when every line end
  before the blank line is a CRLF (`headerBlock_encodes_iff`): the loop ends a line at
  either byte and removes the next byte unseen.
-/

namespace SimpleServ.Http

open SimpleServ.Cxx SimpleServ.Utility StringParser Outcome

instance : DecidablePred Blank := fun _ => inferInstanceAs (Decidable (_ ∨ _))

instance : DecidablePred NoLineEnd := fun v => inferInstanceAs (Decidable (∀ y ∈ v, y ∉ crlf))

instance : DecidablePred Header.Readable := fun header =>
  inferInstanceAs (Decidable ((chr ' ' ∉ header.key ∧ NoLineEnd header.key) ∧ NoLineEnd header.value))

/-! ## The request line -/

/-- `s` begins with the request line of `method`, `url` and `version`. -/
def SpelledLine (s : Bytes) (method : HTTPMethod) (url : Bytes) (version : HTTPVersion) : Prop :=
  ∃ w w' text rest, s = method.string ++ (w ++ (url ++ (w' ++ (text ++ (crlf ++ rest))))) ∧
    w ≠ [] ∧ Blanks w ∧ url ≠ [] ∧ chr ' ' ∉ url ∧ NoLineEnd url ∧ w' ≠ [] ∧ Blanks w' ∧
    version.string = ret text

/-- What follows the first run of blanks. -/
def targetAt (s : Bytes) : Bytes := (s.dropWhile (¬ Blank ·)).dropWhile (Blank ·)

/-- From there to the next space. -/
def targetOf (s : Bytes) : Bytes := (targetAt s).takeWhile (· ≠ chr ' ')

/-- What follows the run of blanks that begins at that space. -/
def versionAt (s : Bytes) : Bytes :=
  ((targetAt s).dropWhile (· ≠ chr ' ')).dropWhile (Blank ·)

/-- The target of `s` has no line end, and `HTTP/1.1` or `HTTP/2.0` and a CRLF stand at its
    version. -/
def StrictLine (s : Bytes) : Prop :=
  NoLineEnd (targetOf s) ∧ (startsWith (versionAt s) (lit "HTTP/1.1" ++ crlf) = true ∨
    startsWith (versionAt s) (lit "HTTP/2.0" ++ crlf) = true)

variable {s x rest : Bytes} {head : LineHead} {version version' : HTTPVersion}

theorem method_no_blank (m : HTTPMethod) : ∀ y ∈ m.string, ¬ Blank y := by
  cases m <;> simp [HTTPMethod.string, lit, Blank, chr, asciiHT] <;> decide

theorem dropWhile_run {p : Byte → Prop} [DecidablePred p] {w v : Bytes} (hw : ∀ y ∈ w, p y)
    (hv : NotAhead p v) : (w ++ v).dropWhile (p ·) = v := by
  rw [List.dropWhile_append_of_pos (by simpa using hw)]
  cases v with
  | nil => rfl
  | cons y v => rw [List.dropWhile_cons_of_neg (by simpa using notAhead_cons.mp hv)]

theorem takeWhile_run {p : Byte → Prop} [DecidablePred p] {w v : Bytes} (hw : ∀ y ∈ w, p y)
    (hv : NotAhead p v) : (w ++ v).takeWhile (p ·) = w := by
  rw [List.takeWhile_append_of_pos (by simpa using hw)]
  cases v with
  | nil => simp
  | cons y v => rw [List.takeWhile_cons_of_neg (by simpa using notAhead_cons.mp hv), List.append_nil]

theorem LineHead.gap_split (head : LineHead) (x : Bytes) :
    targetAt (head.text x) = head.target ++ chr ' ' :: (head.gap' ++ x) := by
  obtain ⟨g, gs, hg⟩ := List.exists_cons_of_ne_nil head.gap_ne
  have hb : Blank g := head.gap_blanks g (by simp [hg])
  have hn : NotAhead (fun y => ¬ Blank y)
      (head.gap ++ (head.target ++ chr ' ' :: (head.gap' ++ x))) := by
    rw [hg, List.cons_append]
    exact notAhead_cons.mpr (not_not.mpr hb)
  unfold targetAt LineHead.text
  rw [dropWhile_run (method_no_blank _) hn]
  exact dropWhile_run head.gap_blanks ((notAhead_append head.target_ne).mpr head.target_ahead)

theorem LineHead.space_ahead (head : LineHead) (x : Bytes) :
    NotAhead (fun y => y ≠ chr ' ') (chr ' ' :: (head.gap' ++ x)) :=
  notAhead_cons.mpr (not_not.mpr rfl)

theorem LineHead.target_bytes (head : LineHead) : ∀ y ∈ head.target, y ≠ chr ' ' := by
  rintro y hy rfl
  exact head.target_no_space hy

theorem LineHead.targetOf_text (head : LineHead) (x : Bytes) :
    targetOf (head.text x) = head.target := by
  unfold targetOf
  rw [head.gap_split]
  exact takeWhile_run head.target_bytes (head.space_ahead x)

theorem LineHead.gap'_run (head : LineHead) : ∀ y ∈ chr ' ' :: head.gap', Blank y := by
  intro y hy
  rcases List.mem_cons.mp hy with rfl | hy
  · exact Or.inr rfl
  · exact head.gap'_blanks y hy

theorem LineHead.versionAt_text (head : LineHead) (hx : NotAhead Blank x) :
    versionAt (head.text x) = x := by
  unfold versionAt
  rw [head.gap_split, dropWhile_run head.target_bytes (head.space_ahead x), ← List.cons_append]
  exact dropWhile_run head.gap'_run hx

/-- The version reader is a function of the view. -/
theorem VersionText.unique {rest' : Bytes} (h : VersionText x version rest)
    (h' : VersionText x version' rest') : version = version' ∧ rest = rest' := by
  obtain ⟨c1, h1, hr⟩ := versionStringToEnum_yields (c := Cursor.start x) h
  obtain ⟨c2, h2, hr'⟩ := versionStringToEnum_yields (c := Cursor.start x) h'
  rw [h1, ret.injEq, Prod.mk.injEq] at h2
  obtain ⟨hv, rfl⟩ := h2
  exact ⟨hv, hr.symm.trans hr'⟩

theorem versionText_http11 (v : Bytes) : VersionText (lit "HTTP/1.1" ++ v) .HTTP_1_1 v :=
  .http11 (x := chr '1') (y := chr '.') (w := lit "1" ++ v) (skip_append (lit "HTTP/") _)
    (by decide) rfl (by decide)

theorem versionText_http20 (v : Bytes) : VersionText (lit "HTTP/2.0" ++ v) .HTTP_2_0 v :=
  .http20 (z := lit ".0" ++ v) (skip_append (lit "HTTP/") _)

/-- `HTTP/1.0` is read as version 1.1, with the `0` left over. -/
theorem versionText_http10 (v : Bytes) :
    VersionText (lit "HTTP/1.0" ++ v) .HTTP_1_1 (chr '0' :: v) :=
  .http11 (x := chr '1') (y := chr '.') (w := chr '0' :: v) (skip_append (lit "HTTP/") _)
    (by decide) rfl (by decide)

/-- What a strict line is, told from its head and from what stands at its version. -/
theorem strictLine_text (head : LineHead) (hx : NotAhead Blank x) :
    StrictLine (head.text x) ↔ NoLineEnd head.target ∧
      (startsWith x (lit "HTTP/1.1" ++ crlf) = true ∨
        startsWith x (lit "HTTP/2.0" ++ crlf) = true) := by
  rw [StrictLine, head.targetOf_text, head.versionAt_text hx]

theorem strict_of_spelled (hx : NotAhead Blank x) (hv : VersionText x version (crlf ++ rest))
    (h : SpelledLine (head.text x) head.method head.target version) :
    StrictLine (head.text x) := by
  obtain ⟨w, w', text, rest', hs, hw, hwb, hu, hus, hul, hw', hwb', ht⟩ := h
  refine (strictLine_text head hx).mpr ⟨hul, ?_⟩
  -- the two readings of the line have the same gaps, so `x` is the spelled version
  have hs := List.append_cancel_left hs
  have hru (v : Bytes) : NotAhead Blank (head.target ++ v) :=
    (notAhead_append head.target_ne).mpr head.target_ahead
  obtain ⟨-, hs⟩ := split_run_unique head.gap_blanks hwb (hru _) (hru _) hs
  have hs := List.append_cancel_left hs
  rw [← List.cons_append] at hs
  obtain ⟨z, zs, rfl, hz⟩ : ∃ z zs, text = z :: zs ∧ ¬ Blank z := by
    cases version <;> cases ht <;> exact ⟨_, _, rfl, by decide⟩
  obtain ⟨-, rfl⟩ := split_run_unique head.gap'_run hwb' hx (notAhead_cons.mpr hz) hs
  cases version with
  | HTTP_1_0 =>
    cases ht
    exact absurd (VersionText.unique hv (versionText_http10 _)).1 (by decide)
  | HTTP_1_1 =>
    cases ht
    exact Or.inl (startsWith_append (lit "HTTP/1.1" ++ crlf) rest')
  | HTTP_2_0 =>
    cases ht
    exact Or.inr (startsWith_append (lit "HTTP/2.0" ++ crlf) rest')
  | HTTP_INVALID => cases ht

theorem spelled_of_strict (hx : NotAhead Blank x) (hv : VersionText x version (crlf ++ rest))
    (h : StrictLine (head.text x)) :
    SpelledLine (head.text x) head.method head.target version := by
  obtain ⟨hul, h⟩ := (strictLine_text head hx).mp h
  have hspell : ∀ text, version.string = ret text → (∃ b, x = text ++ (crlf ++ b)) →
      SpelledLine (head.text x) head.method head.target version := by
    rintro text ht ⟨b, rfl⟩
    refine ⟨head.gap, chr ' ' :: head.gap', text, b, ?_, head.gap_ne, head.gap_blanks,
      head.target_ne, head.target_no_space, hul, by simp, head.gap'_run, ht⟩
    simp [LineHead.text]
  rcases h with h | h
  · obtain ⟨b, rfl⟩ := startsWith_iff.mp h
    rw [List.append_assoc] at hv
    obtain ⟨rfl, -⟩ := hv.unique (versionText_http11 _)
    exact hspell _ rfl ⟨b, List.append_assoc _ _ _⟩
  · obtain ⟨b, rfl⟩ := startsWith_iff.mp h
    rw [List.append_assoc] at hv
    obtain ⟨rfl, -⟩ := hv.unique (versionText_http20 _)
    exact hspell _ rfl ⟨b, List.append_assoc _ _ _⟩

/-- On an accepted line, being spelled out is being strict. -/
theorem requestLine_spelled_iff (h : RequestLine s head version rest) :
    SpelledLine s head.method head.target version ↔ StrictLine s := by
  obtain ⟨x, rfl, hx, hv⟩ := h
  exact ⟨strict_of_spelled hx hv, spelled_of_strict hx hv⟩

/-- **An accepted request is reported as its request line spells it exactly when the line is
    strict.** -/
theorem accepted_spelled_iff (s : Bytes) (request : HTTPRequest)
    (h : parseHttpRequest s = ret (.ok request)) :
    SpelledLine s request.method request.path request.version ↔ StrictLine s := by
  obtain ⟨head, version, mid, headers, body, hl, -, rfl⟩ := parseHttpRequest_ok_iff.mp h
  rw [buildRequest_eq]
  exact requestLine_spelled_iff hl

instance : DecidablePred StrictLine := fun _ => inferInstanceAs (Decidable (_ ∧ _))

theorem accepted_spelled_iff_get : SpelledLine (lit "GET / HTTP/1.1\r\n\r\n") .GET (lit "/")
    .HTTP_1_1 :=
  (accepted_spelled_iff (lit "GET / HTTP/1.1\r\n\r\n")
    (HTTPRequest.new .GET (lit "/") .HTTP_1_1) (by decide +kernel)).mpr (by decide +kernel)

/-- `X.1` is accepted as version 1.1. -/
theorem accepted_not_spelled : ¬ ∀ s request, parseHttpRequest s = ret (.ok request) →
    SpelledLine s request.method request.path request.version := by
  intro h
  have ha : parseHttpRequest (lit "GET / X.1\r\n\r\n") =
      ret (.ok (HTTPRequest.new .GET (lit "/") .HTTP_1_1)) := by decide +kernel
  obtain ⟨head, version, mid, headers, body, hl, -, hr⟩ := parseHttpRequest_ok_iff.mp ha
  rw [buildRequest_eq] at hr
  have hs := h _ _ ha
  rw [hr] at hs
  exact absurd ((requestLine_spelled_iff hl).mp hs) (by decide +kernel)

/-! ## The header block -/

/-- Every line of the text ends in CRLF, up to its first empty line. -/
inductive CrlfLines : Bytes → Prop where
  | blank (body : Bytes) : CrlfLines (crlf ++ body)
  | line {l rest : Bytes} : NoLineEnd l → CrlfLines rest → CrlfLines (l ++ (crlf ++ rest))

/-- The header lines as they are written, without the blank line. -/
def encodeHeaders (headers : List Header) : Bytes :=
  headers.flatMap fun header => header.line ++ crlf

theorem crlfLines_cases (h : CrlfLines s) :
    (∃ body, s = crlf ++ body) ∨ ∃ l rest, s = l ++ (crlf ++ rest) ∧ NoLineEnd l ∧ CrlfLines rest := by
  cases h with
  | blank body => exact Or.inl ⟨body, rfl⟩
  | line hl hr => exact Or.inr ⟨_, _, rfl, hl, hr⟩

/-- The next line of a text with CRLF line ends. -/
theorem crlfLines_line {header : Header} {x y : Byte} (hh : header.Readable) (hx : x ∈ crlf)
    (h : CrlfLines (header.line ++ x :: y :: rest)) : x = chr '\r' ∧ y = chr '\n' ∧ CrlfLines rest := by
  rcases crlfLines_cases h with ⟨body, hb⟩ | ⟨l, rest', hl, hnl, hr⟩
  · have hn := line_not_crlf hh (x :: y :: rest)
    rw [startsWith_iff.mpr ⟨body, hb⟩] at hn
    cases hn
  · have hl' : header.line ++ x :: y :: rest = l ++ chr '\r' :: (chr '\n' :: rest') := hl
    obtain ⟨-, rfl, hy⟩ := split_first_unique (p := fun z => z ∈ crlf) hh.noLineEnd hnl hx
      (by decide) hl'
    obtain ⟨rfl, rfl⟩ := List.cons.inj hy
    exact ⟨rfl, rfl, hr⟩

theorem headerBlock_encodes {headers : List Header} {body : Bytes}
    (h : HeaderBlock s headers body) :
    s = encodeHeaders headers ++ (crlf ++ body) ↔ CrlfLines s := by
  induction h with
  | blank body => exact ⟨fun _ => .blank body, fun _ => rfl⟩
  | @line header x y rest headers body hh hx _ ih =>
    have he : encodeHeaders (header :: headers) ++ (crlf ++ body) =
        header.line ++ (crlf ++ (encodeHeaders headers ++ (crlf ++ body))) := by
      simp [encodeHeaders]
    rw [he]
    constructor
    · intro hs
      have hl : x :: y :: rest = chr '\r' :: chr '\n' ::
          (encodeHeaders headers ++ (crlf ++ body)) := List.append_cancel_left hs
      simp only [List.cons.injEq] at hl
      obtain ⟨rfl, rfl, hr⟩ := hl
      exact .line hh.noLineEnd (ih.mp hr)
    · intro hc
      obtain ⟨rfl, rfl, hr⟩ := crlfLines_line hh hx hc
      rw [← ih.mpr hr]
      rfl

/-- **The header parser is the inverse of writing the headers exactly on CRLF lines.** -/
theorem headerBlock_encodes_iff (s : Bytes) (headers : List Header) (c : Cursor s)
    (h : parseMessageHeaders.run (Cursor.start s) = ret (.ok headers, c)) :
    s = encodeHeaders headers ++ (crlf ++ c.view) ↔ CrlfLines s := by
  have hb : HeaderBlock s headers c.view := by
    rcases parseMessageHeaders_cases (Cursor.start s) with hs | ⟨e, c', he, -⟩ | ⟨hs, b, hb⟩
    · have hs : parseMessageHeaders.run (Cursor.start s) = ub := parseMessageHeaders_strays hs
      rw [hs] at h
      cases h
    · rw [he] at h
      cases h
    · obtain ⟨c', he, hv⟩ := parseMessageHeaders_yields hb
      rw [he, ret.injEq, Prod.mk.injEq, Except.ok.injEq] at h
      obtain ⟨rfl, rfl⟩ := h
      rw [hv]
      exact hb
  exact headerBlock_encodes hb

set_option maxRecDepth 4000 in
theorem headerBlock_encodes_iff_oneLine :
    Header.line ⟨lit "A", lit "b"⟩ ++ (crlf ++ (crlf ++ lit "x")) =
      encodeHeaders [⟨lit "A", lit "b"⟩] ++ (crlf ++ lit "x") := by
  have hr : Header.Readable ⟨lit "A", lit "b"⟩ := by decide
  have hb : HeaderBlock (Header.line ⟨lit "A", lit "b"⟩ ++ (crlf ++ (crlf ++ lit "x")))
      [⟨lit "A", lit "b"⟩] (lit "x") := .line hr (by decide) (.blank _)
  obtain ⟨c, hc, hv⟩ := parseMessageHeaders_yields (c := Cursor.start _) hb
  have hs := (headerBlock_encodes_iff _ _ c hc).mpr (.line hr.noLineEnd (.blank _))
  rwa [hv] at hs

set_option maxRecDepth 4000 in
/-- A header line that ends in a lone LF: the byte after it belongs to no header. -/
theorem headerBlock_skips_byte : ¬ ∀ s headers (c : Cursor s),
    parseMessageHeaders.run (Cursor.start s) = ret (.ok headers, c) →
    s = encodeHeaders headers ++ (crlf ++ c.view) := by
  intro h
  have ht : Header.line ⟨lit "A", lit "b"⟩ ++ chr '\n' :: chr 'X' :: (crlf ++ []) =
      lit "A: b\nX\r\n" := by decide
  generalize lit "A: b\nX\r\n" = s at ht
  have hr : Header.Readable ⟨lit "A", lit "b"⟩ := by decide
  have hb : HeaderBlock s [⟨lit "A", lit "b"⟩] [] := by
    rw [← ht]
    exact .line hr (by decide) (.blank [])
  obtain ⟨c, hc, hv⟩ := parseMessageHeaders_yields (c := Cursor.start s) hb
  have hs := h s _ c hc
  rw [hv, ← ht] at hs
  exact absurd hs (by decide)

end SimpleServ.Http
