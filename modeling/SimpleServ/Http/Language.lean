import SimpleServ.Http.RequestLine
import SimpleServ.Http.HeaderBlock

/-
  The language of `parse_http_request`: what it accepts, where it throws, where it strays.

  `RequestText s request` is a request line, a header block and a body, read as `request`.
  `CutShort s` and `StrayRequest s` are the texts on which the parser throws
  `std::out_of_range` and on which it leaves a view. The three are exclusive, and on every
  other text the parser returns an error: `parseHttpRequest_ok_iff`,
  `parseHttpRequest_throw_iff`, `parseHttpRequest_ub_iff`. Later modules argue about texts
  and use these instead of the code.
-/

namespace SimpleServ.Http

open SimpleServ.Cxx SimpleServ.Utility StringParser Outcome

/-- The request that `parse_http_request` builds from the parts it has read. -/
def buildRequest (method : HTTPMethod) (url : Bytes) (version : HTTPVersion)
    (headers : List Header) (body : Bytes) : HTTPRequest :=
  (headers.foldl (fun r header => r.setHeader header.key header.value)
    (HTTPRequest.new method url version)).setContent body

/-- `s` is accepted as `request`. -/
def RequestText (s : Bytes) (request : HTTPRequest) : Prop :=
  ∃ head version mid headers body, RequestLine s head version mid ∧
    HeaderBlock mid headers body ∧
    request = buildRequest head.method head.target version headers body

/-- `s` ends inside its request line, where the parser looks at the next byte unasked. -/
def CutShort (s : Bytes) : Prop := CutLine s

/-- The parser leaves its view in the request line or in the header block of `s`. -/
def StrayRequest (s : Bytes) : Prop :=
  StrayLine s ∨ ∃ head version mid, RequestLine s head version mid ∧ StrayHeaders mid

/-- The map that `SetHeader` leaves for a list of header lines, from `map` on. -/
def insertHeaders (map : HeaderMap) (headers : List Header) : HeaderMap :=
  headers.foldl (fun map header => map.insert header.key header.value) map

theorem foldl_setHeader (headers : List Header) (request : HTTPRequest) :
    headers.foldl (fun r header => r.setHeader header.key header.value) request =
      { request with headers := insertHeaders request.headers headers } := by
  induction headers generalizing request with
  | nil => rfl
  | cons header headers ih => rw [List.foldl_cons, ih]; rfl

theorem buildRequest_eq (method : HTTPMethod) (url : Bytes) (version : HTTPVersion)
    (headers : List Header) (body : Bytes) : buildRequest method url version headers body =
      { method := method, path := url, version := version, headers := insertHeaders ∅ headers,
        body := body } := by
  unfold buildRequest
  rw [foldl_setHeader]
  rfl

variable {s : Bytes} {request : HTTPRequest}

theorem parseHttpRequest_run (s : Bytes) : parseHttpRequest s =
    (parseRequest.run (Cursor.start s) >>= fun p => ret p.1) := rfl

theorem parseHttpRequest_of_yields {r : Except ParserError HTTPRequest} {P : Cursor s → Prop}
    (h : Yields parseRequest (Cursor.start s) r P) : parseHttpRequest s = ret r := by
  obtain ⟨c, hr, -⟩ := h
  rw [parseHttpRequest_run, hr]
  rfl

theorem parseHttpRequest_ok (h : RequestText s request) :
    parseHttpRequest s = ret (.ok request) := by
  obtain ⟨head, version, mid, headers, body, hl, hb, rfl⟩ := h
  refine parseHttpRequest_of_yields (P := fun _ => True) ?_
  refine (parseRequestLine_yields (c := Cursor.start s) hl).bind fun c1 h1 => ?_
  rw [← h1] at hb
  refine (parseMessageHeaders_yields hb).bind fun c2 h2 => ?_
  exact ⟨c2, by rw [← h2]; rfl, trivial⟩

theorem parseHttpRequest_throw (h : CutShort s) : ∃ e, parseHttpRequest s = .throw e := by
  obtain ⟨e, he⟩ := parseRequestLine_throws (c := Cursor.start s) h
  refine ⟨e, ?_⟩
  rw [parseHttpRequest_run, parseRequest, StateT.run_bind, he]
  rfl

theorem parseHttpRequest_ub (h : StrayRequest s) : parseHttpRequest s = ub := by
  have hs : Strays parseRequest (Cursor.start s) := by
    rcases h with h | ⟨head, version, mid, hl, hh⟩
    · exact (parseRequestLine_strays (c := Cursor.start s) h).bind
    · refine (parseRequestLine_yields (c := Cursor.start s) hl).strays fun c1 h1 => ?_
      rw [← h1] at hh
      exact (parseMessageHeaders_strays hh).bind
  rw [parseHttpRequest_run, hs]
  rfl

/-- How the parser ends on a text. -/
theorem parseHttpRequest_cases (s : Bytes) :
    CutShort s ∨ StrayRequest s ∨ (∃ e, parseHttpRequest s = ret (.error e)) ∨
      ∃ request, RequestText s request := by
  rcases parseRequestLine_cases (Cursor.start s) with h | h | ⟨e, rest, h⟩ |
    ⟨head, version, mid, hl⟩
  · exact Or.inl h
  · exact Or.inr (Or.inl (Or.inl h))
  · right; right; left
    refine ⟨e, parseHttpRequest_of_yields (P := At rest) ?_⟩
    exact h.bind fun c1 h1 => yields_pure h1
  · obtain ⟨c1, hr, h1⟩ := parseRequestLine_yields hl
    rcases parseMessageHeaders_cases c1 with h | ⟨e, h⟩ | ⟨headers, body, h⟩
    · exact Or.inr (Or.inl (Or.inr ⟨head, version, mid, hl, h1 ▸ h⟩))
    · right; right; left
      refine ⟨e, parseHttpRequest_of_yields (P := At c1.view) ?_⟩
      refine Yields.bind (P := fun c2 => c2 = c1) ⟨c1, hr, rfl⟩ fun c2 h2 => ?_
      subst h2
      exact h.bind fun c3 h3 => yields_pure h3
    · exact Or.inr (Or.inr (Or.inr ⟨_, head, version, mid, headers, body, hl, h1 ▸ h, rfl⟩))

theorem parseHttpRequest_ok_iff : parseHttpRequest s = ret (.ok request) ↔ RequestText s request := by
  refine ⟨fun h => ?_, parseHttpRequest_ok⟩
  rcases parseHttpRequest_cases s with hc | hc | ⟨e, he⟩ | ⟨r, hr⟩
  · obtain ⟨e, he⟩ := parseHttpRequest_throw hc
    rw [he] at h
    cases h
  · rw [parseHttpRequest_ub hc] at h
    cases h
  · rw [he] at h
    cases h
  · rw [parseHttpRequest_ok hr, ret.injEq, Except.ok.injEq] at h
    exact h ▸ hr

theorem parseHttpRequest_ub_iff : parseHttpRequest s = ub ↔ StrayRequest s := by
  refine ⟨fun h => ?_, parseHttpRequest_ub⟩
  rcases parseHttpRequest_cases s with hc | hc | ⟨e, he⟩ | ⟨r, hr⟩
  · obtain ⟨e, he⟩ := parseHttpRequest_throw hc
    rw [he] at h
    cases h
  · exact hc
  · rw [he] at h
    cases h
  · rw [parseHttpRequest_ok hr] at h
    cases h

theorem parseHttpRequest_throw_iff : (∃ e, parseHttpRequest s = .throw e) ↔ CutShort s := by
  refine ⟨?_, parseHttpRequest_throw⟩
  rintro ⟨e, h⟩
  rcases parseHttpRequest_cases s with hc | hc | ⟨e, he⟩ | ⟨r, hr⟩
  · exact hc
  · rw [parseHttpRequest_ub hc] at h
    cases h
  · rw [he] at h
    cases h
  · rw [parseHttpRequest_ok hr] at h
    cases h

/-- The parser returns, with a request or with an error, exactly outside both languages. -/
theorem parseHttpRequest_returns_iff :
    (parseHttpRequest s).Returns ↔ ¬ CutShort s ∧ ¬ StrayRequest s := by
  constructor
  · rintro ⟨r, hr⟩
    rw [← parseHttpRequest_ub_iff, ← parseHttpRequest_throw_iff]
    simp [hr]
  · rintro ⟨hc, hs⟩
    rcases parseHttpRequest_cases s with h | h | ⟨e, he⟩ | ⟨request, hr⟩
    · exact absurd h hc
    · exact absurd h hs
    · exact ⟨_, he⟩
    · exact ⟨_, parseHttpRequest_ok hr⟩

/-! ## Accesses inside the view -/

/-- While the parser runs on `s`, every `remove_prefix`, `view[0]` and `back ()` stays inside
    its view. The cursor is a suffix of `s` throughout: `Cursor s` carries it. -/
def ViewsStayInside (s : Bytes) : Prop := parseHttpRequest s ≠ ub

/-- **The parser stays inside its views exactly outside `StrayRequest`.** -/
theorem viewsStayInside_iff (s : Bytes) : ViewsStayInside s ↔ ¬ StrayRequest s :=
  not_congr parseHttpRequest_ub_iff

/-- A header line without a space: `next_token` passes `npos` to `remove_prefix`. -/
theorem not_viewsStayInside_malformedHeader :
    ¬ ViewsStayInside (lit "GET / HTTP/1.1\r\nContent\r\n-Type: text/html\r\n") := by
  intro h
  exact h (by decide +kernel)

end SimpleServ.Http
