import SimpleServ.Http.HttpHandler

/-
  The same text behind two method names.

  No method name is the start of another, so the parser treats `m.string ++ s` and
  `m'.string ++ s` alike up to the method it reports: `RequestText.swap`, `CutShort.swap`,
  `StrayRequest.swap`. The handler looks at the method only to leave out the body, hence
  `handle_head_get`: a HEAD request is answered by the answer to the GET request up to its
  blank line. `throughBlankLine` cuts a message after the first empty line.
-/

namespace SimpleServ.Http

open SimpleServ.Cxx SimpleServ.Utility Outcome

variable {s t x body : Bytes} {m : HTTPMethod} {request : HTTPRequest} {head : LineHead}

/-! ## Another method -/

/-- A text starts with at most one method name. -/
theorem method_unique {m' : HTTPMethod} (h : m.string ++ s = m'.string ++ t) : m = m' ∧ s = t := by
  obtain ⟨c1, h1, hs⟩ := methodStringToEnum_yields (c := Cursor.start (m.string ++ s)) rfl
  obtain ⟨c2, h2, ht⟩ := methodStringToEnum_yields (c := Cursor.start (m.string ++ s)) h
  rw [h1, ret.injEq, Prod.mk.injEq, Except.ok.injEq] at h2
  obtain ⟨hm, rfl⟩ := h2
  exact ⟨hm, hs.symm.trans ht⟩

def LineHead.withMethod (head : LineHead) (m : HTTPMethod) : LineHead := { head with method := m }

theorem LineHead.swap (h : m.string ++ s = head.text x) (m' : HTTPMethod) :
    head.method = m ∧ m'.string ++ s = (head.withMethod m').text x := by
  obtain ⟨rfl, rfl⟩ := method_unique h
  exact ⟨rfl, rfl⟩

theorem RequestLine.swap {version : HTTPVersion} {mid : Bytes}
    (h : RequestLine (m.string ++ s) head version mid) (m' : HTTPMethod) :
    head.method = m ∧ RequestLine (m'.string ++ s) (head.withMethod m') version mid := by
  obtain ⟨x, hs, hx, hv⟩ := h
  obtain ⟨hm, hs'⟩ := LineHead.swap hs m'
  exact ⟨hm, x, hs', hx, hv⟩

theorem RequestText.swap (h : RequestText (m.string ++ s) request) (m' : HTTPMethod) :
    request.method = m ∧ RequestText (m'.string ++ s) { request with method := m' } := by
  obtain ⟨head, version, mid, headers, body, hl, hb, rfl⟩ := h
  obtain ⟨hm, hl'⟩ := hl.swap m'
  rw [buildRequest_eq]
  exact ⟨hm, head.withMethod m', version, mid, headers, body, hl', hb,
    (buildRequest_eq _ _ _ _ _).symm⟩

theorem method_length (m : HTTPMethod) : 1 < m.string.length := by
  cases m <;> decide

theorem CutShort.swap (h : CutShort (m.string ++ s)) (m' : HTTPMethod) :
    CutShort (m'.string ++ s) := by
  have hlen : 1 < (m.string ++ s).length := by
    have := method_length m
    rw [List.length_append]
    omega
  rcases h with h | h | ⟨head, x, hs, hx, hv⟩
  · rw [h] at hlen
    simp at hlen
  · rw [h] at hlen
    exact absurd hlen (by decide)
  · exact Or.inr (Or.inr ⟨head.withMethod m', x, (LineHead.swap hs m').2, hx, hv⟩)

theorem not_noMethod (m : HTTPMethod) (s : Bytes) : ¬ NoMethod (m.string ++ s) := by
  rintro ⟨x, rest, hs, hx, -⟩
  obtain ⟨y, w, hm, hy⟩ : ∃ y w, m.string = y :: w ∧ y ∈ methodLetters := by
    cases m <;> exact ⟨_, _, rfl, by decide⟩
  rw [hm, List.cons_append, List.cons.injEq] at hs
  exact hx (hs.1 ▸ hy)

theorem StrayLine.swap (h : StrayLine (m.string ++ s)) (m' : HTTPMethod) :
    StrayLine (m'.string ++ s) := by
  rcases h with h | ⟨m'', h⟩ | ⟨m'', w, u, h, hw⟩
  · exact absurd h (not_noMethod m s)
  · rw [← List.append_nil m''.string] at h
    obtain ⟨-, rfl⟩ := method_unique h
    exact Or.inr (Or.inl ⟨m', List.append_nil _⟩)
  · obtain ⟨-, rfl⟩ := method_unique h
    exact Or.inr (Or.inr ⟨m', w, u, rfl, hw⟩)

theorem StrayRequest.swap (h : StrayRequest (m.string ++ s)) (m' : HTTPMethod) :
    StrayRequest (m'.string ++ s) := by
  rcases h with h | ⟨head, version, mid, hl, hh⟩
  · exact Or.inl (h.swap m')
  · exact Or.inr ⟨head.withMethod m', version, mid, (hl.swap m').2, hh⟩

theorem parseHttpRequest_error_swap {e : ParserError}
    (h : parseHttpRequest (m.string ++ s) = ret (.error e)) (m' : HTTPMethod) :
    ∃ e', parseHttpRequest (m'.string ++ s) = ret (.error e') := by
  rcases parseHttpRequest_cases (m'.string ++ s) with hc | hc | he | ⟨request, hr⟩
  · obtain ⟨e', he⟩ := parseHttpRequest_throw (hc.swap m)
    rw [he] at h
    cases h
  · rw [parseHttpRequest_ub (hc.swap m)] at h
    cases h
  · exact he
  · rw [parseHttpRequest_ok (hr.swap m).2] at h
    cases h

/-! ## Cutting a message -/

/-- The message up to and with its first empty line. -/
def throughBlankLine : Bytes → Bytes
  | [] => []
  | x :: v => if startsWith (x :: v) (crlf ++ crlf) then crlf ++ crlf else x :: throughBlankLine v

theorem throughBlankLine_skip {x : Byte} {v : Bytes}
    (h : startsWith (x :: v) (crlf ++ crlf) = false) :
    throughBlankLine (x :: v) = x :: throughBlankLine v := by
  rw [throughBlankLine, h]
  rfl

theorem not_blankLine {x : Byte} (hx : x ≠ chr '\r') (v : Bytes) :
    startsWith (x :: v) (crlf ++ crlf) = false := by
  cases hs : startsWith (x :: v) (crlf ++ crlf) with
  | false => rfl
  | true =>
    obtain ⟨rest, hr⟩ := startsWith_iff.mp hs
    exact absurd (List.cons.inj hr).1 hx

theorem throughBlankLine_append {l : Bytes} (hl : NoLineEnd l) (v : Bytes) :
    throughBlankLine (l ++ v) = l ++ throughBlankLine v := by
  induction l with
  | nil => rfl
  | cons x l ih =>
    have hx : x ≠ chr '\r' := by
      intro hx
      exact hl x (by simp) (hx ▸ by decide)
    rw [List.cons_append, throughBlankLine_skip (not_blankLine hx _),
      ih fun y hy => hl y (by simp [hy])]
    rfl

theorem throughBlankLine_crlf {v : Bytes} (hv : startsWith v crlf = false) :
    throughBlankLine (crlf ++ v) = crlf ++ throughBlankLine v := by
  have hs : startsWith (chr '\r' :: chr '\n' :: v) (crlf ++ crlf) = false := hv
  have hc : throughBlankLine (chr '\r' :: chr '\n' :: v) = _ := throughBlankLine_skip hs
  rw [throughBlankLine_skip (not_blankLine (by decide) v)] at hc
  exact hc

/-- Cutting a message of a first line and header lines leaves out the body. -/
theorem throughBlankLine_message {headers : List Header}
    (hh : ∀ header ∈ headers, header.Readable) {l : Bytes} (hl : NoLineEnd l) (body : Bytes) :
    throughBlankLine (l ++ (crlf ++ (encodeHeaders headers ++ (crlf ++ body)))) =
      l ++ (crlf ++ (encodeHeaders headers ++ crlf)) := by
  induction headers generalizing l with
  | nil =>
    rw [throughBlankLine_append hl]
    rfl
  | cons header headers ih =>
    have hr := hh header (by simp)
    have he (v : Bytes) : encodeHeaders (header :: headers) ++ v =
        header.line ++ (crlf ++ (encodeHeaders headers ++ v)) := by
      simp [encodeHeaders]
    rw [throughBlankLine_append hl, he, throughBlankLine_crlf (line_not_crlf hr _),
      ih (fun k hk => hh k (by simp [hk])) hr.noLineEnd, he]

/-! ## The responses -/

/-- `message` is the start of `whole` up to its blank line: the same first line, the same
    header lines and nothing more. -/
def HeadOfMessage (message whole : Bytes) : Prop :=
  message = throughBlankLine whole ∧
    ∃ first headers body, NoLineEnd first ∧ (∀ header ∈ headers, Header.Readable header) ∧
      message = first ++ (crlf ++ (encodeHeaders headers ++ crlf)) ∧ whole = message ++ body

/-- The two calls end alike, and where they answer the first answer is the head of the second. -/
inductive HeadOutcome : Outcome (Option Bytes) → Outcome (Option Bytes) → Prop where
  | no_value : HeadOutcome (ret none) (ret none)
  | response {message whole : Bytes} :
      HeadOfMessage message whole → HeadOutcome (ret (some message)) (ret (some whole))
  | throw (e e' : Exn) : HeadOutcome (.throw e) (.throw e')
  | ub : HeadOutcome ub ub

/-- A literal of printable characters has no line end in it. -/
theorem noLineEnd_lit {text : String}
    (h : text.toList.all (fun c => 32 ≤ c.toNat && c.toNat < 128) = true) :
    NoLineEnd (lit text) := by
  intro y hy
  obtain ⟨c, hc, rfl⟩ := List.mem_map.mp hy
  have hb := List.all_eq_true.mp h c hc
  simp only [Bool.and_eq_true, decide_eq_true_eq] at hb
  have hn : (chr c).toNat = c.toNat := by
    have hm : (chr c).toNat = c.toNat % 256 := rfl
    omega
  have hcr : ∀ z ∈ crlf, z.toNat < 32 := by
    intro z hz
    rcases List.mem_pair.mp hz with rfl | rfl <;> decide
  intro hl
  have := hcr _ hl
  omega

theorem decodeFiletype_noLineEnd (filetype : FileType) : NoLineEnd (decodeFiletype filetype) := by
  cases filetype <;> exact noLineEnd_lit rfl

theorem decodeFileEncoding_noLineEnd (encoding : FileEncoding) :
    NoLineEnd (decodeFileEncoding encoding) := by
  cases encoding with
  | NONE => exact fun y hy => absurd hy List.not_mem_nil
  | BROTLI => exact noLineEnd_lit rfl
  | DEFLATE => exact noLineEnd_lit rfl
  | GZIP => exact noLineEnd_lit rfl

theorem readable_insert {map : HeaderMap} (h : ∀ header ∈ headersOf map, header.Readable)
    {value : Bytes} (key : Bytes) (hk : FieldName key) (hv : NoLineEnd value) :
    ∀ header ∈ headersOf (map.insert key value), header.Readable := by
  intro header hm
  rw [mem_headersOf, Lib.getElem?_insert] at hm
  by_cases hc : header.key = key
  · rw [if_pos hc, Option.some.injEq] at hm
    exact ⟨hc ▸ hk, hm ▸ hv⟩
  · rw [if_neg hc] at hm
    exact h header (mem_headersOf.mpr hm)

theorem readable_empty : ∀ header ∈ headersOf (∅ : HeaderMap), header.Readable := by
  intro header hm
  simp [headersOf] at hm

theorem okHeaders_readable (filetype : FileType) (encoding : FileEncoding) :
    ∀ header ∈ headersOf (okHeaders filetype encoding), header.Readable := by
  have ht := readable_insert readable_empty (lit "Content-Type")
    ⟨by decide, noLineEnd_lit rfl⟩ (decodeFiletype_noLineEnd filetype)
  unfold okHeaders
  dsimp only
  split
  · exact readable_insert ht (lit "Content-Encoding") ⟨by decide, noLineEnd_lit rfl⟩
      (decodeFileEncoding_noLineEnd encoding)
  · exact ht

theorem statusLine_noLineEnd (status : HTTPStatusCode) :
    NoLineEnd (lit "HTTP/1.1" ++ lit " " ++ statusCodeToString status) := by
  have hs : NoLineEnd (statusCodeToString status) := by
    cases status <;> exact noLineEnd_lit rfl
  exact noLineEnd_append.mpr ⟨noLineEnd_append.mpr ⟨noLineEnd_lit rfl, noLineEnd_lit rfl⟩, hs⟩

/-- Status code and headers depend on the data alone; the method decides about the body. -/
theorem composeResponse_split (data : Except FileManagerException HTTPFileData) :
    ∃ status map content, (∀ header ∈ headersOf map, header.Readable) ∧
      ∀ request, composeResponse request data =
        ⟨⟨.HTTP_1_1, map, if request.method = .HEAD then [] else content⟩, status⟩ := by
  cases data with
  | error e =>
    refine ⟨.NOT_FOUND, ∅, [], readable_empty, fun request => ?_⟩
    rw [ite_self]
    rfl
  | ok data =>
    exact ⟨.OK, okHeaders data.filetype data.file_encoding, data.content,
      okHeaders_readable _ _, fun request => composeResponse_ok request data⟩

/-- The response to HEAD is the head of the response to the same request for GET. -/
theorem response_head (data : Except FileManagerException HTTPFileData) (request : HTTPRequest) :
    HeadOutcome (ret (some (responseText (composeResponse { request with method := .HEAD } data))))
      (ret (some (responseText (composeResponse { request with method := .GET } data)))) := by
  obtain ⟨status, map, content, hr, hc⟩ := composeResponse_split data
  have hhead : composeResponse { request with method := .HEAD } data =
      ⟨⟨.HTTP_1_1, map, []⟩, status⟩ := hc _
  have hget : composeResponse { request with method := .GET } data =
      ⟨⟨.HTTP_1_1, map, content⟩, status⟩ := hc _
  rw [hhead, hget, responseText, responseText, printHeaders_of_lines _ rfl,
    printHeaders_of_lines _ rfl]
  have hl := statusLine_noLineEnd status
  have hm := throughBlankLine_message hr hl content
  refine .response ⟨?_, _, _, content, hl, hr, ?_, ?_⟩
  · simpa using hm.symm
  · simp
  · simp

/-- **HEAD agrees with GET.** On every string behind the method and from every state of the
    file manager the two calls end alike and leave the same file manager, and the response to
    HEAD is the response to GET up to its blank line. -/
theorem handle_head_get (disk : Disk) (s : Bytes) (file_manager : FileManager) :
    HeadOutcome (handle disk (lit "HEAD" ++ s) file_manager).1
        (handle disk (lit "GET" ++ s) file_manager).1 ∧
      (handle disk (lit "HEAD" ++ s) file_manager).2 =
        (handle disk (lit "GET" ++ s) file_manager).2 := by
  rcases parseHttpRequest_cases (HTTPMethod.string .GET ++ s) with h | h | ⟨e, h⟩ | ⟨request, h⟩
  · obtain ⟨e, hg⟩ := parseHttpRequest_throw h
    obtain ⟨e', hh⟩ := parseHttpRequest_throw (h.swap .HEAD)
    simp only [HTTPMethod.string] at hg hh
    simp only [handle, hg, hh]
    exact ⟨.throw e' e, trivial⟩
  · have hg := parseHttpRequest_ub h
    have hh := parseHttpRequest_ub (h.swap .HEAD)
    simp only [HTTPMethod.string] at hg hh
    simp only [handle, hg, hh]
    exact ⟨.ub, trivial⟩
  · obtain ⟨e', h'⟩ := parseHttpRequest_error_swap h .HEAD
    simp only [HTTPMethod.string] at h h'
    simp only [handle, h, h']
    exact ⟨.no_value, trivial⟩
  · obtain ⟨hm, ht⟩ := h.swap .HEAD
    have hg := parseHttpRequest_ok h
    have hh := parseHttpRequest_ok ht
    simp only [HTTPMethod.string] at hg hh
    have hr : request = { request with method := .GET } := by rw [← hm]
    rw [handle_of_accepted hg, handle_of_accepted hh]
    -- the method has no part in the key
    show HeadOutcome (andThen (file_manager.getFile disk (servedKey request)) _).1 _ ∧
      (andThen (file_manager.getFile disk (servedKey request)) _).2 = _
    rcases getFile_ends disk file_manager (servedKey request) with ⟨⟨data, hd⟩, -⟩ | ⟨he, -⟩
    · rw [andThen_of_ret hd, andThen_of_ret hd]
      refine ⟨?_, rfl⟩
      have hhead := response_head data request
      rwa [← hr] at hhead
    · rw [he]
      exact ⟨.throw .ios_failure .ios_failure, rfl⟩

end SimpleServ.Http
