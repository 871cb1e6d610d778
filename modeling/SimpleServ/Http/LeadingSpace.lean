import SimpleServ.Http.RoundTrip
import SimpleServ.Lib.OrderedMap

/-
  White space between the colon of a header line and its value.

  `parse_header` ends the name at the first space of the line and removes that one byte. So
  more white space stays in front of the value; without any, or with a tab first, the name
  runs on into the value, up to a space there, and the line is refused or has another name.

  `spaceIgnored_iff`: a line is read as if its value stood behind one space exactly when it
  does, or when its value begins with a space and a later line overrides it.
-/

namespace SimpleServ.Http

open SimpleServ.Cxx SimpleServ.Utility StringParser Outcome

/-- A line that can be read, with a name that has no colon. -/
def Header.Named (header : Header) : Prop := header.Readable ∧ chr ':' ∉ header.key

/-- A request with the header lines `before`, the line `line` and the header lines `after`. -/
def requestWith (head : LineHead) (before : List Header) (line : Bytes) (after : List Header)
    (body : Bytes) : Bytes :=
  head.text (lit "HTTP/1.1" ++ (crlf ++ (encodeHeaders before ++ (line ++ (crlf ++
    (encodeHeaders after ++ (crlf ++ body)))))))

/-- With `w` in front of the value the request is read as with one space, and the map holds
    the value. -/
def SpaceIgnored (head : LineHead) (before : List Header) (n w v : Bytes) (after : List Header)
    (body : Bytes) : Prop :=
  parseHttpRequest (requestWith head before (n ++ (lit ":" ++ (w ++ v))) after body) =
      parseHttpRequest (requestWith head before (n ++ (lit ": " ++ v)) after body) ∧
    ∃ request, parseHttpRequest (requestWith head before (n ++ (lit ":" ++ (w ++ v))) after body) =
      ret (.ok request) ∧ request.headers[n]? = some v

variable {s line rest mid body n w v : Bytes} {head : LineHead} {before after headers : List Header}
  {header : Header} {request : HTTPRequest}

/-! ## The header block of a request -/

theorem RequestLine.rest_unique {head' : LineHead} {version version' : HTTPVersion} {rest' : Bytes}
    (h : RequestLine s head version rest) (h' : RequestLine s head' version' rest') :
    rest = rest' := by
  obtain ⟨c, hc, hr⟩ := parseRequestLine_yields (c := Cursor.start s) h
  obtain ⟨c', hc', hr'⟩ := parseRequestLine_yields (c := Cursor.start s) h'
  rw [hc, ret.injEq, Prod.mk.injEq] at hc'
  have he : c.view = c'.view := by rw [hc'.2]
  rw [← hr, ← hr', he]

theorem requestLine_http11 (head : LineHead) (mid : Bytes) :
    RequestLine (head.text (lit "HTTP/1.1" ++ (crlf ++ mid))) head .HTTP_1_1 mid :=
  ⟨_, rfl, notAhead_cons.mpr (by decide), versionText_http11 _⟩

/-- An accepted request has a header block, from which its map comes. -/
theorem headerBlock_of_parse
    (h : parseHttpRequest (head.text (lit "HTTP/1.1" ++ (crlf ++ mid))) = ret (.ok request)) :
    ∃ headers body, HeaderBlock mid headers body ∧ request.headers = insertHeaders ∅ headers := by
  obtain ⟨head', version, mid', headers, body, hl, hb, rfl⟩ := parseHttpRequest_ok_iff.mp h
  obtain rfl := (requestLine_http11 head mid).rest_unique hl
  exact ⟨headers, body, hb, by rw [buildRequest_eq]⟩

/-- A first line that is not empty is a header line. -/
theorem headerBlock_line (hl : NoLineEnd line) (hne : line ≠ [])
    (h : HeaderBlock (line ++ (crlf ++ rest)) headers body) : ∃ header headers',
      headers = header :: headers' ∧ header.Readable ∧ header.line = line ∧
        HeaderBlock rest headers' body := by
  generalize hs : line ++ (crlf ++ rest) = s at h
  cases h with
  | blank body =>
    obtain ⟨x, xs, rfl⟩ := List.exists_cons_of_ne_nil hne
    have hx : x = chr '\r' := (List.cons.inj hs).1
    exact absurd (by rw [hx]; decide) (hl x List.mem_cons_self)
  | @line header x y rest' headers' body hh hx hb =>
    have hs' : line ++ chr '\r' :: (chr '\n' :: rest) = header.line ++ x :: (y :: rest') := hs
    obtain ⟨rfl, -, hr⟩ := split_first_unique (p := fun z => z ∈ crlf) hl hh.noLineEnd
      (by decide) hx hs'
    obtain ⟨-, rfl⟩ := List.cons.inj hr
    exact ⟨header, headers', rfl, hh, rfl, hb⟩

theorem Header.line_ne_nil (header : Header) : header.line ≠ [] := by
  simp [Header.line, lit]

/-- A line behind others is one of the header lines; by induction on the others. -/
theorem headerBlock_mem (hb : ∀ header ∈ before, header.Readable) (hl : NoLineEnd line)
    (hne : line ≠ [])
    (h : HeaderBlock (encodeHeaders before ++ (line ++ (crlf ++ rest))) headers body) :
    ∃ header ∈ headers, header.Readable ∧ header.line = line := by
  induction before generalizing headers with
  | nil =>
    obtain ⟨header, headers', rfl, hr, he, -⟩ := headerBlock_line hl hne h
    exact ⟨header, List.mem_cons_self, hr, he⟩
  | cons first before ih =>
    have he : encodeHeaders (first :: before) ++ (line ++ (crlf ++ rest)) =
        first.line ++ (crlf ++ (encodeHeaders before ++ (line ++ (crlf ++ rest)))) := by
      simp [encodeHeaders]
    rw [he] at h
    have hf := hb first List.mem_cons_self
    obtain ⟨-, headers', rfl, -, -, h'⟩ := headerBlock_line hf.noLineEnd first.line_ne_nil h
    obtain ⟨header, hm, hr⟩ := ih (fun k hk => hb k (List.mem_cons_of_mem _ hk)) h'
    exact ⟨header, List.mem_cons_of_mem _ hm, hr⟩

/-- Where no space follows the colon, the name runs over the colon. -/
theorem colon_mem_key (hn : chr ' ' ∉ n) (hv : NotAhead (· = chr ' ') v) (hk : chr ' ' ∉ header.key)
    (h : header.line = n ++ chr ':' :: v) : chr ':' ∈ header.key := by
  have hc : chr ' ' ≠ chr ':' := by decide
  have hl : header.line = (header.key ++ [chr ':']) ++ chr ' ' :: header.value := by
    simp [Header.line, lit]
  have hkey : ∀ y ∈ header.key ++ [chr ':'], ¬ y = chr ' ' := by
    rintro y hy rfl
    simp [hk, hc] at hy
  rcases split_first (· = chr ' ') v with hs | ⟨a, x, b, rfl, rfl, ha⟩
  · have hm : chr ' ' ∈ header.line := by simp [hl]
    rw [h] at hm
    have hnv : chr ' ' ∉ v := fun hv => hs _ hv rfl
    simp [hn, hc, hnv] at hm
  · obtain ⟨a, z, rfl⟩ : ∃ front z, a = front ++ [z] := by
      refine (List.eq_nil_or_concat' a).resolve_left ?_
      rintro rfl
      exact notAhead_cons.mp hv rfl
    have hna : ∀ y ∈ n ++ chr ':' :: (a ++ [z]), ¬ y = chr ' ' := by
      rintro y hy rfl
      rcases List.mem_append.mp hy with hy | hy
      · exact hn hy
      · rcases List.mem_cons.mp hy with hy | hy
        · exact hc hy
        · exact ha _ hy rfl
    have hs : (header.key ++ [chr ':']) ++ chr ' ' :: header.value =
        (n ++ chr ':' :: (a ++ [z])) ++ chr ' ' :: b := by
      rw [← hl, h]
      simp
    obtain ⟨he, -, -⟩ := split_first_unique hkey hna rfl rfl hs
    have hfront : header.key = n ++ chr ':' :: a := by
      have he' : header.key ++ [chr ':'] = (n ++ chr ':' :: a) ++ [z] := by rw [he]; simp
      exact (List.append_inj' he' rfl).1
    rw [hfront]
    simp

/-! ## The map -/

theorem insertHeaders_append (map : HeaderMap) (headers headers' : List Header) :
    insertHeaders map (headers ++ headers') = insertHeaders (insertHeaders map headers) headers' :=
  List.foldl_append

theorem lastValue_isSome_iff {name : Bytes} :
    (lastValue headers name).isSome ↔ ∃ header ∈ headers, header.key = name := by
  simp [lastValue]

/-- The map of a request with the value `x` for `n`. -/
def mapWith (before : List Header) (n x : Bytes) (after : List Header) : HeaderMap :=
  insertHeaders ∅ (before ++ ⟨n, x⟩ :: after)

theorem mapWith_getElem? (before : List Header) (n x : Bytes) (after : List Header) (name : Bytes) :
    (mapWith before n x after)[name]? = (lastValue after name).or
      (if name = n then some x else (insertHeaders ∅ before)[name]?) := by
  rw [mapWith, insertHeaders_append]
  show (insertHeaders ((insertHeaders ∅ before).insert n x) after)[name]? = _
  rw [insertHeaders_getElem?, Lib.getElem?_insert]

/-- A later line overrides the value, or it is in the map. -/
theorem mapWith_eq_iff {x y : Bytes} : mapWith before n x after = mapWith before n y after ↔
    lastValue after n ≠ none ∨ x = y := by
  constructor
  · intro h
    have hn : (mapWith before n x after)[n]? = (mapWith before n y after)[n]? := by rw [h]
    rw [mapWith_getElem?, mapWith_getElem?, if_pos rfl, if_pos rfl] at hn
    cases hl : lastValue after n with
    | some z => exact Or.inl nofun
    | none =>
      rw [hl] at hn
      exact Or.inr (Option.some.inj hn)
  · rintro (hl | rfl)
    · apply Std.ExtTreeMap.ext_getElem?
      intro name
      rw [mapWith_getElem?, mapWith_getElem?]
      by_cases hname : name = n
      · obtain ⟨z, hz⟩ := Option.ne_none_iff_exists'.mp hl
        rw [hname, hz, Option.some_or, Option.some_or]
      · rw [if_neg hname, if_neg hname]
    · rfl

/-- No name with a colon is in the map of lines whose names have none. -/
theorem mapWith_colon (hb : ∀ header ∈ before, header.Named) (ha : ∀ header ∈ after, header.Named)
    (hn : chr ':' ∉ n) (x : Bytes) {name : Bytes} (hname : chr ':' ∈ name) :
    (mapWith before n x after)[name]? = none := by
  have hnone : lastValue (before ++ ⟨n, x⟩ :: after) name = none := by
    rw [← Option.not_isSome_iff_eq_none, lastValue_isSome_iff]
    rintro ⟨header, hm, rfl⟩
    rcases List.mem_append.mp hm with hm | hm
    · exact (hb header hm).2 hname
    · rcases List.mem_cons.mp hm with rfl | hm
      · exact hn hname
      · exact (ha header hm).2 hname
  rw [mapWith, insertHeaders_getElem?, hnone, Option.none_or, Std.ExtTreeMap.getElem?_empty]

/-! ## One line in two spellings -/

theorem requestWith_headers (head : LineHead) (before : List Header) (header : Header)
    (after : List Header) (body : Bytes) : requestWith head before header.line after body =
      head.text (lit "HTTP/1.1" ++ (crlf ++ (encodeHeaders (before ++ header :: after) ++
        (crlf ++ body)))) := by
  simp [requestWith, encodeHeaders]

/-- A request whose lines can be read. -/
theorem parse_requestWith (header : Header) (hb : ∀ header ∈ before, header.Named)
    (hh : header.Readable) (ha : ∀ header ∈ after, header.Named) (head : LineHead) (body : Bytes) :
    parseHttpRequest (requestWith head before header.line after body) =
      ret (.ok { method := head.method, path := head.target, version := .HTTP_1_1,
                 headers := mapWith before header.key header.value after, body := body }) := by
  have hr : ∀ k ∈ before ++ header :: after, k.Readable := by
    intro k hk
    rcases List.mem_append.mp hk with hk | hk
    · exact (hb k hk).1
    · rcases List.mem_cons.mp hk with rfl | hk
      · exact hh
      · exact (ha k hk).1
  rw [requestWith_headers]
  exact parseHttpRequest_ok (requestText_of_lines head _ versionText_http11
    (fun v => notAhead_cons.mpr (by decide)) hr body)

/-- Without a space behind the colon, no name of the map that is read is the name of the line. -/
theorem not_spaceIgnored (hb : ∀ header ∈ before, header.Named) (ha : ∀ header ∈ after, header.Named)
    (hn : FieldName n) (hc : chr ':' ∉ n) (hv : NoLineEnd v) (hw : NoLineEnd w)
    (hs : NotAhead (· = chr ' ') (w ++ v)) : ¬ SpaceIgnored head before n w v after body := by
  rintro ⟨he, request, hp, -⟩
  have href := parse_requestWith ⟨n, v⟩ hb ⟨hn, hv⟩ ha head body
  have hline : Header.line ⟨n, v⟩ = n ++ (lit ": " ++ v) := rfl
  rw [hline, ← he, hp, ret.injEq, Except.ok.injEq] at href
  obtain ⟨headers, body', hblock, hmap⟩ := headerBlock_of_parse hp
  have hone : NoLineEnd (lit ":") := by
    intro y hy
    rw [List.mem_singleton.mp hy]
    decide
  have hl : NoLineEnd (n ++ (lit ":" ++ (w ++ v))) :=
    noLineEnd_append.mpr ⟨hn.2, noLineEnd_append.mpr ⟨hone, noLineEnd_append.mpr ⟨hw, hv⟩⟩⟩
  obtain ⟨header, hm, hr, hkey⟩ := headerBlock_mem (fun k hk => (hb k hk).1) hl
    (by simp [lit]) hblock
  have hcolon := colon_mem_key hn.1 hs hr.1.1 hkey
  obtain ⟨value, hvalue⟩ := Option.isSome_iff_exists.mp (lastValue_isSome_iff.mpr ⟨header, hm, rfl⟩)
  -- the name that was read is in this map and not in that one
  have hin : request.headers[header.key]? = some value := by
    rw [hmap, insertHeaders_getElem?, hvalue, Option.some_or]
  rw [href, mapWith_colon hb ha hc v hcolon] at hin
  cases hin

/-- **Which white space is ignored.** A line `n:wv` is read as `n: v`, with `v` for `n` in the
    map, exactly when `w` begins with a space and either ends there, no later line having the
    name, or the last of the later lines with the name has the value too. -/
theorem spaceIgnored_iff (head : LineHead) (before after : List Header) (n w v body : Bytes)
    (hb : ∀ header ∈ before, header.Named) (ha : ∀ header ∈ after, header.Named)
    (hn : FieldName n) (hc : chr ':' ∉ n) (hv : NoLineEnd v) (hvb : NotAhead Blank v)
    (hw : Blanks w) :
    SpaceIgnored head before n w v after body ↔ ∃ w', w = chr ' ' :: w' ∧
      (w' = [] ∧ lastValue after n = none ∨ lastValue after n = some v) := by
  have hwl : NoLineEnd w := by
    intro y hy
    rcases hw y hy with rfl | rfl <;> decide
  by_cases hs : ∃ w', w = chr ' ' :: w'
  · obtain ⟨w', rfl⟩ := hs
    have hline : n ++ (lit ":" ++ (chr ' ' :: w' ++ v)) = Header.line ⟨n, w' ++ v⟩ := rfl
    have hwv : NoLineEnd (w' ++ v) :=
      noLineEnd_append.mpr ⟨fun y hy => hwl y (List.mem_cons_of_mem _ hy), hv⟩
    have href : n ++ (lit ": " ++ v) = Header.line ⟨n, v⟩ := rfl
    have hp := parse_requestWith ⟨n, w' ++ v⟩ hb ⟨hn, hwv⟩ ha head body
    have hpr := parse_requestWith ⟨n, v⟩ hb ⟨hn, hv⟩ ha head body
    have hmap : SpaceIgnored head before n (chr ' ' :: w') v after body ↔
        mapWith before n (w' ++ v) after = mapWith before n v after ∧
          (mapWith before n (w' ++ v) after)[n]? = some v := by
      unfold SpaceIgnored
      rw [hline, href, hp, hpr]
      simp
    have hcancel : w' ++ v = v ↔ w' = [] := by simp
    rw [hmap, mapWith_eq_iff, mapWith_getElem?, if_pos rfl, hcancel]
    cases hl : lastValue after n with
    | none => simp
    | some z => simp
  · refine iff_of_false (not_spaceIgnored hb ha hn hc hv hwl ?_) fun ⟨w', h, _⟩ => hs ⟨w', h⟩
    rintro x rest hx rfl
    cases w with
    | nil => exact hvb _ rest hx (Or.inr rfl)
    | cons y w => exact hs ⟨w, by rw [(List.cons.inj hx).1]⟩

set_option maxRecDepth 4000 in
/-- `GET / `, in front of a version. -/
def rootLine : LineHead where
  method := .GET
  gap := [chr ' ']
  target := lit "/"
  gap' := []
  gap_ne := by decide
  gap_blanks := by unfold Blanks; decide
  target_ne := by decide
  target_no_space := by decide
  target_ahead := notAhead_cons.mpr (by decide)
  gap'_blanks := by unfold Blanks; decide

set_option maxRecDepth 4000 in
theorem spaceIgnored_iff_oneSpace :
    SpaceIgnored rootLine [] (lit "A") (lit " ") (lit "b c") [] [] :=
  (spaceIgnored_iff rootLine [] [] (lit "A") (lit " ") (lit "b c") [] (by simp) (by simp)
    ⟨by decide, by decide⟩ (by decide) (by decide) (notAhead_cons.mpr (by decide))
    (by unfold Blanks; decide)).mpr ⟨[], rfl, Or.inl ⟨rfl, rfl⟩⟩

set_option maxRecDepth 4000 in
/-- `A:b`, with nothing behind the colon. -/
theorem not_spaceIgnored_noSpace :
    ¬ ∀ (head : LineHead) (before after : List Header) (n w v body : Bytes),
      (∀ header ∈ before, header.Named) → (∀ header ∈ after, header.Named) → FieldName n →
      chr ':' ∉ n → NoLineEnd v → NotAhead Blank v → Blanks w →
        SpaceIgnored head before n w v after body := by
  intro h
  have hv : NotAhead Blank (lit "b") := notAhead_cons.mpr (by decide)
  have hs := h rootLine [] [] (lit "A") [] (lit "b") [] (by simp) (by simp) ⟨by decide, by decide⟩
    (by decide) (by decide) hv (by unfold Blanks; decide)
  exact not_spaceIgnored (by simp) (by simp) ⟨by decide, by decide⟩ (by decide) (by decide)
    (by decide) (fun x rest hx hb => hv x rest hx (Or.inr hb)) hs

end SimpleServ.Http
