import SimpleServ.Http.RoundTrip

/-
  Longer and shorter texts.

  `parse_append`: bytes behind an accepted request only extend its body. No search of the
  parser runs past the blank line, and each literal that is tried on the version text is
  told from it by the line end at the latest, also where the result is ignored.
  `parse_prefix`: no proper prefix of a well-formed head is accepted, since the rest of the
  head would belong to the body of the request, and the head has none.
-/

namespace SimpleServ.Http

open SimpleServ.Cxx SimpleServ.Utility StringParser Outcome

variable {s t v w p rest mid body : Bytes} {request : HTTPRequest}

/-! ## Literals -/

/-- A byte that is not in the literal keeps the view from ending inside it. -/
theorem startsWith_extend {y : Byte} (hy : y ∈ v) (hp : y ∉ p) (t : Bytes) :
    startsWith (v ++ t) p = startsWith v p := by
  cases hs : startsWith v p with
  | true =>
    obtain ⟨rest, rfl⟩ := startsWith_iff.mp hs
    rw [List.append_assoc, startsWith_append]
  | false =>
    rw [Bool.eq_false_iff]
    intro h
    obtain ⟨rest, hr⟩ := startsWith_iff.mp h
    rcases List.append_eq_append_iff.mp hr with ⟨u, rfl, -⟩ | ⟨u, rfl, -⟩
    · exact hp (List.mem_append_left _ hy)
    · rw [startsWith_append] at hs
      cases hs

theorem skip_extend {y : Byte} (hy : y ∈ v) (hp : y ∉ p) (t : Bytes) :
    skip p (v ++ t) = skip p v ++ t := by
  unfold skip
  rw [startsWith_extend hy hp]
  cases hs : startsWith v p with
  | false => rfl
  | true =>
    obtain ⟨rest, rfl⟩ := startsWith_iff.mp hs
    simp

theorem mem_of_mem_skip {y : Byte} (hy : y ∈ skip p v) : y ∈ v := by
  rcases skip_eq (p := p) (v := v) rfl with h | h
  · rwa [h]
  · rw [h]
    exact List.mem_append_right _ hy

/-! ## Longer texts -/

theorem mem_of_skip_cons {x y : Byte} {z : Bytes} (h : skip p v = x :: z) (hy : y ∈ z) : y ∈ v := by
  have hm : y ∈ skip p v := by
    rw [h]
    exact List.mem_cons_of_mem _ hy
  exact mem_of_mem_skip hm

theorem skip_extend_cons {x y : Byte} {z : Bytes} (h : skip p v = x :: z) (hy : y ∈ v)
    (hp : y ∉ p) (t : Bytes) : skip p (v ++ t) = x :: (z ++ t) := by
  rw [skip_extend hy hp, h, List.cons_append]

/-- What the version reader leaves comes from the view. -/
theorem VersionText.mem {version : HTTPVersion} (h : VersionText v version rest) {y : Byte}
    (hy : y ∈ rest) : y ∈ v := by
  cases h with
  | http20 h => exact mem_of_skip_cons h (mem_of_mem_skip hy)
  | http10 h _ h' => exact mem_of_skip_cons h (mem_of_skip_cons h' hy)
  | http11 h _ h' _ => exact mem_of_skip_cons h (mem_of_skip_cons h' (mem_of_mem_skip hy))

/-- A version text with a line end behind it is read alike when more bytes follow. -/
theorem VersionText.append {version : HTTPVersion} (h : VersionText v version rest)
    (hr : chr '\r' ∈ rest) (t : Bytes) : VersionText (v ++ t) version (rest ++ t) := by
  have hv := h.mem hr
  cases h with
  | http20 h =>
    have hz := mem_of_mem_skip hr
    rw [← skip_extend hz (by decide)]
    exact .http20 (skip_extend_cons h hv (by decide) t)
  | http10 h hx h' =>
    have hz := mem_of_skip_cons h' hr
    exact .http10 (skip_extend_cons h hv (by decide) t) hx
      (skip_extend_cons h' hz (by decide) t)
  | http11 h hx h' hy =>
    have hw := mem_of_mem_skip hr
    have hz := mem_of_skip_cons h' hw
    rw [← skip_extend hw (by decide)]
    exact .http11 (skip_extend_cons h hv (by decide) t) hx
      (skip_extend_cons h' hz (by decide) t) hy

theorem RequestLine.append {head : LineHead} {version : HTTPVersion}
    (h : RequestLine s head version mid) (t : Bytes) :
    RequestLine (s ++ t) head version (mid ++ t) := by
  obtain ⟨x, rfl, hx, hv⟩ := h
  have hr : chr '\r' ∈ crlf ++ mid := by simp [crlf, lit]
  have hne : x ≠ [] := List.ne_nil_of_mem (hv.mem hr)
  refine ⟨x ++ t, by simp [LineHead.text], (notAhead_append hne).mpr hx, ?_⟩
  rw [← List.append_assoc]
  exact hv.append hr t

theorem HeaderBlock.append {headers : List Header} (h : HeaderBlock s headers body) (t : Bytes) :
    HeaderBlock (s ++ t) headers (body ++ t) := by
  induction h with
  | blank body =>
    rw [List.append_assoc]
    exact .blank _
  | line hh hx _ ih =>
    rw [List.append_assoc]
    exact .line hh hx ih

theorem RequestText.append (h : RequestText s request) (t : Bytes) :
    RequestText (s ++ t) (request.setContent (request.body ++ t)) := by
  obtain ⟨head, version, mid, headers, body, hl, hb, rfl⟩ := h
  refine ⟨head, version, mid ++ t, headers, body ++ t, hl.append t, hb.append t, ?_⟩
  rw [buildRequest_eq, buildRequest_eq]
  rfl

/-- **Bytes behind an accepted request only extend its body.** -/
theorem parse_append (s t : Bytes) (request : HTTPRequest)
    (h : parseHttpRequest s = ret (.ok request)) :
    ∃ request', parseHttpRequest (s ++ t) = ret (.ok request') ∧
      request'.method = request.method ∧ request'.path = request.path ∧
      request'.version = request.version ∧ request'.headers = request.headers ∧
      request'.body = request.body ++ t :=
  ⟨_, parseHttpRequest_ok ((parseHttpRequest_ok_iff.mp h).append t), rfl, rfl, rfl, rfl, rfl⟩

set_option maxRecDepth 4000 in
theorem parse_append_get : ∃ request',
    parseHttpRequest (lit "GET / HTTP/1.1\r\n\r\n" ++ lit "hi") = ret (.ok request') ∧
      request'.method = .GET ∧ request'.path = lit "/" ∧ request'.version = .HTTP_1_1 ∧
      request'.headers = ∅ ∧ request'.body = lit "hi" := by
  let head : LineHead := ⟨.GET, lit " ", lit "/", [], by decide, by unfold Blanks; decide,
    by decide, by decide, notAhead_cons.mpr (by decide), by simp [Blanks]⟩
  have hh : ∀ header ∈ ([] : List Header), header.Readable := by simp
  have ht := requestText_of_lines head (lit "HTTP/1.1") versionText_http11
    (fun v => notAhead_cons.mpr (by decide)) hh []
  exact parse_append (lit "GET / HTTP/1.1\r\n\r\n") (lit "hi") _ (parseHttpRequest_ok ht)

/-! ## Shorter texts -/

/-- The head of a well-formed request, up to and with its blank line. -/
inductive WellFormedHead : Bytes → Prop where
  | intro (method : HTTPMethod) {w u w' : Bytes} {version : Bytes} {headers : List Header}
      (gap : w ≠ [] ∧ Blanks w) (target : u ≠ [] ∧ ∀ y ∈ u, ¬ Blank y ∧ y ∉ crlf)
      (gap' : w' ≠ [] ∧ ∀ y ∈ w', y = chr ' ')
      (spelled : version = lit "HTTP/1.1" ∨ version = lit "HTTP/2.0")
      (readable : ∀ header ∈ headers, header.Readable) :
      WellFormedHead (method.string ++ (w ++ (u ++ (w' ++ (version ++ (crlf ++
        (encodeHeaders headers ++ crlf)))))))

/-- A well-formed head is accepted, with an empty body. -/
theorem WellFormedHead.accepted (h : WellFormedHead s) :
    ∃ request, RequestText s request ∧ request.body = [] := by
  obtain ⟨method, ⟨hw, hwb⟩, ⟨hu, hub⟩, ⟨hw', hwb'⟩, hv, hh⟩ := h
  rename_i w u w' version headers
  obtain ⟨g, gs, rfl⟩ := List.exists_cons_of_ne_nil hw'
  obtain rfl : g = chr ' ' := hwb' g (by simp)
  let head : LineHead := ⟨method, w, u, gs, hw, hwb, hu,
    fun hs => (hub _ hs).1 (Or.inr rfl),
    by rintro x rest rfl; exact (hub x (by simp)).1,
    fun y hy => Or.inr (hwb' y (by simp [hy]))⟩
  have ht : ∃ v, RequestText (head.text (version ++ (crlf ++ (encodeHeaders headers ++
      (crlf ++ []))))) ⟨⟨v, insertHeaders ∅ headers, []⟩, method, u⟩ := by
    rcases hv with rfl | rfl
    · exact ⟨_, requestText_of_lines head _ versionText_http11
        (fun v => notAhead_cons.mpr (by decide)) hh []⟩
    · exact ⟨_, requestText_of_lines head _ versionText_http20
        (fun v => notAhead_cons.mpr (by decide)) hh []⟩
  obtain ⟨v, ht⟩ := ht
  exact ⟨_, by simpa [LineHead.text, head] using ht, rfl⟩

/-- The language determines the request. -/
theorem RequestText.unique {request' : HTTPRequest} (h : RequestText s request)
    (h' : RequestText s request') : request = request' := by
  have hp := parseHttpRequest_ok h
  rw [parseHttpRequest_ok h', ret.injEq, Except.ok.injEq] at hp
  exact hp.symm

/-- **No proper prefix of a well-formed head is accepted.** -/
theorem parse_prefix (h q : Bytes) (hh : WellFormedHead h) (hq : q <+: h) (hne : q ≠ h) :
    ¬ ∃ request, parseHttpRequest q = ret (.ok request) := by
  rintro ⟨request, hp⟩
  obtain ⟨t, rfl⟩ := hq
  obtain ⟨whole, hw, hb⟩ := hh.accepted
  have hu := hw.unique ((parseHttpRequest_ok_iff.mp hp).append t)
  -- the rest of the head would be the end of its body
  have ht : request.body ++ t = [] := by
    rw [← hb, hu]
    rfl
  exact hne (by rw [(List.append_eq_nil_iff.mp ht).2, List.append_nil])

set_option maxRecDepth 4000 in
theorem wellFormedHead_get : WellFormedHead (lit "GET / HTTP/1.1\r\n\r\n") :=
  @WellFormedHead.intro .GET (lit " ") (lit "/") (lit " ") (lit "HTTP/1.1") []
    ⟨by decide, by unfold Blanks; decide⟩ ⟨by decide, by decide⟩ ⟨by decide, by decide⟩
    (Or.inl rfl) (by simp)

set_option maxRecDepth 4000 in
/-- Cut between the line's end and the blank line. -/
theorem parse_prefix_lineOnly :
    ¬ ∃ request, parseHttpRequest (lit "GET / HTTP/1.1\r\n") = ret (.ok request) :=
  parse_prefix (lit "GET / HTTP/1.1\r\n\r\n") _ wellFormedHead_get ⟨crlf, by decide⟩ (by decide)

end SimpleServ.Http
