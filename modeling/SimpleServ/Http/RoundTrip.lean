import SimpleServ.Http.Strictness

/-
  Reading back what was written.

  `parse_wellFormed`: a well-formed HTTP/1.1 request is accepted and read as it was written,
  with the value of the last line for a repeated name. `print_parse_iff`: a printed request
  is read back unchanged exactly when its version is not 1.0, because the version reader
  takes `HTTP/1.0` for version 1.1 and leaves the `0`.
-/

namespace SimpleServ.Http

open SimpleServ.Cxx SimpleServ.Utility StringParser Outcome

variable {s rest : Bytes} {headers : List Header}

/-! ## The header map -/

/-- The value of the last line with that name. -/
def lastValue (headers : List Header) (name : Bytes) : Option Bytes :=
  (headers.reverse.find? fun header => header.key = name).map Header.value

theorem insertHeaders_getElem? (map : HeaderMap) (headers : List Header) (name : Bytes) :
    (insertHeaders map headers)[name]? = (lastValue headers name).or map[name]? := by
  induction headers generalizing map with
  | nil => rfl
  | cons header headers ih =>
    have hc : insertHeaders map (header :: headers) =
        insertHeaders (map.insert header.key header.value) headers := rfl
    rw [hc, ih, Std.ExtTreeMap.getElem?_insert]
    have hl : lastValue (header :: headers) name = (lastValue headers name).or
        (if header.key = name then some header.value else none) := by
      simp only [lastValue, List.reverse_cons, List.find?_append, Option.map_or]
      congr 1
      by_cases hk : header.key = name <;> simp [hk]
    rw [hl, Option.or_assoc]
    congr 1
    by_cases hk : header.key = name <;> simp [hk]

/-- The lines of a map, in its order. -/
def headersOf (map : HeaderMap) : List Header := map.toList.map fun p => ⟨p.1, p.2⟩

theorem mem_headersOf {map : HeaderMap} {header : Header} :
    header ∈ headersOf map ↔ map[header.key]? = some header.value := by
  rw [← Std.ExtTreeMap.mem_toList_iff_getElem?_eq_some]
  constructor
  · intro h
    obtain ⟨p, hp, rfl⟩ := List.mem_map.mp h
    exact hp
  · intro h
    exact List.mem_map.mpr ⟨_, h, rfl⟩

theorem lastValue_headersOf (map : HeaderMap) (name : Bytes) :
    lastValue (headersOf map) name = map[name]? := by
  unfold lastValue
  cases hf : (headersOf map).reverse.find? fun header => header.key = name with
  | none =>
    rw [List.find?_eq_none] at hf
    cases hm : map[name]? with
    | none => rfl
    | some value =>
      have hmem : (⟨name, value⟩ : Header) ∈ headersOf map := mem_headersOf.mpr hm
      exact absurd (by simp) (hf _ (List.mem_reverse.mpr hmem))
  | some header =>
    have hk : header.key = name := by simpa using List.find?_some hf
    have hmem := List.mem_reverse.mp (List.mem_of_find?_eq_some hf)
    rw [Option.map_some, ← hk, mem_headersOf.mp hmem]

/-- Setting the lines of a map one after another gives the map back. -/
theorem insertHeaders_headersOf (map : HeaderMap) : insertHeaders ∅ (headersOf map) = map := by
  apply Std.ExtTreeMap.ext_getElem?
  intro name
  rw [insertHeaders_getElem?, lastValue_headersOf, Std.ExtTreeMap.getElem?_empty, Option.or_none]

/-! ## Texts that are accepted -/

theorem headerBlock_of_encode (h : ∀ header ∈ headers, header.Readable) (body : Bytes) :
    HeaderBlock (encodeHeaders headers ++ (crlf ++ body)) headers body := by
  induction headers with
  | nil => exact .blank body
  | cons header headers ih =>
    have he : encodeHeaders (header :: headers) ++ (crlf ++ body) = header.line ++
        chr '\r' :: chr '\n' :: (encodeHeaders headers ++ (crlf ++ body)) := by
      simp [encodeHeaders, crlf, lit]
    rw [he]
    exact .line (h header (by simp)) (by decide) (ih fun k hk => h k (by simp [hk]))

theorem notAhead_blank {u : Bytes} (hs : chr ' ' ∉ u) (ht : u.head? ≠ some asciiHT) :
    NotAhead Blank u := by
  rintro x rest rfl (rfl | rfl)
  · exact ht rfl
  · exact hs (by simp)

/-- A line head, a version text that is read as `version`, and header lines. -/
theorem requestText_of_lines (head : LineHead) (text : Bytes) {version : HTTPVersion}
    (hv : ∀ v, VersionText (text ++ v) version v) (ht : ∀ v, NotAhead Blank (text ++ v))
    (hh : ∀ header ∈ headers, header.Readable) (body : Bytes) :
    RequestText (head.text (text ++ (crlf ++ (encodeHeaders headers ++ (crlf ++ body)))))
      { method := head.method, path := head.target, version := version,
        headers := insertHeaders ∅ headers, body := body } :=
  ⟨head, version, _, headers, body, ⟨_, rfl, ht _, hv _⟩, headerBlock_of_encode hh body,
    (buildRequest_eq _ _ _ _ _).symm⟩

/-- **A well-formed request is read as it was written.** -/
theorem parse_wellFormed (method : HTTPMethod) (u w w' : Bytes) (headers : List Header)
    (body : Bytes) (hu : u ≠ []) (hus : chr ' ' ∉ u) (hut : u.head? ≠ some asciiHT)
    (hw : w ≠ []) (hwb : Blanks w) (hwb' : Blanks w') (hh : ∀ header ∈ headers, header.Readable) :
    ∃ request, parseHttpRequest (method.string ++ w ++ u ++ (lit " " ++ w') ++ lit "HTTP/1.1" ++
        crlf ++ encodeHeaders headers ++ crlf ++ body) = ret (.ok request) ∧
      request.method = method ∧ request.path = u ∧ request.version = .HTTP_1_1 ∧
      request.body = body ∧ ∀ name, request.headers[name]? = lastValue headers name := by
  let head : LineHead := ⟨method, w, u, w', hw, hwb, hu, hus, notAhead_blank hus hut, hwb'⟩
  have ht := requestText_of_lines head (lit "HTTP/1.1")
    versionText_http11 (fun v => notAhead_cons.mpr (by decide)) hh body
  have hs : method.string ++ w ++ u ++ (lit " " ++ w') ++ lit "HTTP/1.1" ++ crlf ++
      encodeHeaders headers ++ crlf ++ body =
      head.text (lit "HTTP/1.1" ++ (crlf ++ (encodeHeaders headers ++ (crlf ++ body)))) := by
    simp [LineHead.text, head, lit]
  refine ⟨_, hs ▸ parseHttpRequest_ok ht, rfl, rfl, rfl, rfl, fun name => ?_⟩
  rw [insertHeaders_getElem?, Std.ExtTreeMap.getElem?_empty, Option.or_none]

set_option maxRecDepth 4000 in
theorem parse_wellFormed_repeatedName : ∃ request,
    parseHttpRequest (lit "GET / HTTP/1.1\r\nA: b\r\nA: c: d\r\n\r\nhi") = ret (.ok request) ∧
      request.headers[lit "A"]? = some (lit "c: d") := by
  obtain ⟨request, hr, -, -, -, -, hh⟩ := parse_wellFormed .GET (lit "/") (lit " ") []
    [⟨lit "A", lit "b"⟩, ⟨lit "A", lit "c: d"⟩] (lit "hi") (by decide) (by decide)
    (by decide) (by decide) (by unfold Blanks; decide)
    (by unfold Blanks; decide) (by decide)
  exact ⟨request, by rw [← hr]; congr 1, by rw [hh]; decide⟩

/-! ## Printing and parsing -/

/-- The text `operator<<` writes for the request is read back as the request. -/
def RoundTrips (request : HTTPRequest) : Prop :=
  ∃ text, request.print = ret text ∧ parseHttpRequest text = ret (.ok request)

theorem printHeaders_eq (msg : HTTPMessage) :
    msg.printHeaders = encodeHeaders (headersOf msg.headers) ++ (crlf ++ msg.body) := by
  simp [HTTPMessage.printHeaders, encodeHeaders, headersOf, Header.line, List.flatMap_map]

/-- `HTTP/1.0` is refused: its `0` is left where the line should end. -/
theorem parse_http10_error (head : LineHead) (v : Bytes) :
    ∃ e, parseHttpRequest (head.text (lit "HTTP/1.0" ++ v)) = ret (.error e) := by
  have hx : NotAhead Blank (lit "HTTP/1.0" ++ v) := notAhead_cons.mpr (by decide)
  obtain ⟨c, hc, hr⟩ := parseRequestLine_head
    (c := Cursor.start (head.text (lit "HTTP/1.0" ++ v))) rfl hx
  have hz : startsWith (chr '0' :: v) crlf = false := rfl
  obtain ⟨e, rest, he⟩ := lineTail_rejects hc (versionText_http10 v) hz head.method head.target
  refine ⟨e, parseHttpRequest_of_yields (P := At rest) ?_⟩
  unfold Yields at he
  rw [← hr] at he
  exact Yields.bind he fun c1 h1 => yields_pure h1

/-- The text that `operator<<` writes, in the shape of a line head and header lines. -/
theorem print_eq {method : HTTPMethod} {path text body : Bytes} {version : HTTPVersion}
    {map : HeaderMap} (hs : version.string = ret text) :
    HTTPRequest.print ⟨⟨version, map, body⟩, method, path⟩ =
      ret (method.string ++ ([chr ' '] ++ (path ++ chr ' ' :: ([] ++ (text ++ (crlf ++
        (encodeHeaders (headersOf map) ++ (crlf ++ body)))))))) := by
  simp only [HTTPRequest.print, hs, ret_bind, printHeaders_eq, pure_eq]
  simp [lit]

/-- **A printed request is read back unchanged exactly when its version is not 1.0.** -/
theorem print_parse_iff (request : HTTPRequest) (hv : request.version ≠ .HTTP_INVALID)
    (hp : request.path ≠ []) (hps : chr ' ' ∉ request.path)
    (hpt : request.path.head? ≠ some asciiHT)
    (hh : ∀ name value, request.headers[name]? = some value → FieldName name ∧ NoLineEnd value) :
    RoundTrips request ↔ request.version ≠ .HTTP_1_0 := by
  obtain ⟨⟨version, map, body⟩, method, path⟩ := request
  let head : LineHead := ⟨method, [chr ' '], path, [], by simp, by simp [Blanks, Blank], hp, hps,
    notAhead_blank hps hpt, by simp [Blanks]⟩
  have hr : ∀ header ∈ headersOf map, header.Readable := fun header hm =>
    hh _ _ (mem_headersOf.mp hm)
  have hok : ∀ text, version.string = ret text → (∀ v, VersionText (text ++ v) version v) →
      (∀ v, NotAhead Blank (text ++ v)) → RoundTrips ⟨⟨version, map, body⟩, method, path⟩ := by
    intro text hs hvt ha
    have ht := requestText_of_lines head text hvt ha hr body
    rw [insertHeaders_headersOf] at ht
    exact ⟨_, print_eq hs, parseHttpRequest_ok ht⟩
  cases version with
  | HTTP_1_0 =>
    refine iff_of_false ?_ (by simp)
    rintro ⟨text, hprint, hparse⟩
    rw [print_eq rfl, ret.injEq] at hprint
    obtain ⟨e, he⟩ := parse_http10_error head
      (crlf ++ (encodeHeaders (headersOf map) ++ (crlf ++ body)))
    rw [← hprint] at hparse
    exact absurd (he.symm.trans hparse) (by simp)
  | HTTP_1_1 =>
    refine iff_of_true ?_ (by simp)
    exact hok _ rfl versionText_http11 fun v => notAhead_cons.mpr (by decide)
  | HTTP_2_0 =>
    refine iff_of_true ?_ (by simp)
    exact hok _ rfl versionText_http20 fun v => notAhead_cons.mpr (by decide)
  | HTTP_INVALID => exact absurd rfl hv

theorem print_parse_iff_get : RoundTrips (HTTPRequest.new .GET (lit "/") .HTTP_1_1) :=
  (print_parse_iff (HTTPRequest.new .GET (lit "/") .HTTP_1_1) (by decide) (by decide)
    (by decide) (by decide) (by
      intro name value h
      simp [HTTPRequest.new] at h)).mpr (by decide)

theorem print_parse_http10 : ¬ RoundTrips (HTTPRequest.new .GET (lit "/") .HTTP_1_0) := by
  rintro ⟨text, hprint, hparse⟩
  have ht : (HTTPRequest.new .GET (lit "/") .HTTP_1_0).print =
      ret (lit "GET / HTTP/1.0\r\n\r\n") := by decide
  rw [ht, ret.injEq] at hprint
  rw [← hprint] at hparse
  exact absurd hparse (by decide +kernel)

end SimpleServ.Http
