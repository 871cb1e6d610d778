import SimpleServ.Http.RoundTrip

/-
  Reading back what was answered.

  `readResponse` follows the rules for HTTP/1.1 messages and not the code: a version text, a
  status code of three digits, a reason up to the first CRLF, lines that split at their first
  `": "`, a blank line, and the rest as the body.

  `print_read_iff`: a printed response is read back as it was exactly when its status code is
  neither `MOVED_PERMANENTLY` nor `FOUND`. These two are printed with the numbers 300 and 301.
-/

namespace SimpleServ.Http

open SimpleServ.Cxx SimpleServ.Utility Outcome

variable {a b : Byte} {u v text line rest body : Bytes} {headers : List Header}

/-! ## The reader -/

/-- The parts before and behind the first `a` that `b` follows. -/
def cutAt (a b : Byte) : Bytes → Option (Bytes × Bytes)
  | x :: y :: v =>
    if x = a ∧ y = b then some ([], v) else (cutAt a b (y :: v)).map fun p => (x :: p.1, p.2)
  | _ => none

theorem cutAt_append (hu : a ∉ u) (v : Bytes) : cutAt a b (u ++ a :: b :: v) = some (u, v) := by
  induction u with
  | nil => exact if_pos ⟨rfl, rfl⟩
  | cons x u ih =>
    have hx : x ≠ a := fun h => hu (h ▸ List.mem_cons_self)
    obtain ⟨y, w, hw⟩ : ∃ y w, u ++ a :: b :: v = y :: w :=
      List.exists_cons_of_ne_nil (by simp)
    have hc := ih fun h => hu (List.mem_cons_of_mem x h)
    rw [hw] at hc
    rw [List.cons_append, hw, cutAt, if_neg fun h => hx h.1, hc]
    rfl

theorem cutAt_eq_some (h : cutAt a b text = some (u, v)) : text = u ++ a :: b :: v := by
  induction text generalizing u with
  | nil => cases h
  | cons x text ih =>
    cases text with
    | nil => cases h
    | cons y text =>
      rw [cutAt] at h
      split at h
      · next hxy =>
        cases h
        rw [hxy.1, hxy.2, List.nil_append]
      · obtain ⟨p, hp, he⟩ := Option.map_eq_some_iff.mp h
        cases he
        rw [ih hp, List.cons_append]

def readVersion (text : Bytes) : Option (HTTPVersion × Bytes) :=
  if startsWith text (lit "HTTP/1.0") then some (.HTTP_1_0, text.drop 8)
  else if startsWith text (lit "HTTP/1.1") then some (.HTTP_1_1, text.drop 8)
  else if startsWith text (lit "HTTP/2.0") then some (.HTTP_2_0, text.drop 8)
  else none

def readSpace : Bytes → Option Bytes
  | x :: text => if x = chr ' ' then some text else none
  | [] => none

def readDigit (c : Byte) : Option Nat :=
  if chr '0' ≤ c ∧ c ≤ chr '9' then some (c.toNat - (chr '0').toNat) else none

def readStatus : Bytes → Option (Nat × Bytes)
  | x :: y :: z :: text => do
    let hundreds ← readDigit x
    let tens ← readDigit y
    let ones ← readDigit z
    return (100 * hundreds + 10 * tens + ones, text)
  | _ => none

/-- Header lines up to the blank line, and what follows it. -/
def readFields (map : HeaderMap) (text : Bytes) : Option (HeaderMap × Bytes) :=
  if startsWith text crlf then some (map, text.drop crlf.length)
  else
    match _hc : cutAt (chr '\r') (chr '\n') text with
    | none => none
    | some (line, rest) =>
      match cutAt (chr ':') (chr ' ') line with
      | none => none
      | some (name, value) => readFields (map.insert name value) rest
termination_by text.length
decreasing_by
  rw [cutAt_eq_some _hc, List.length_append, List.length_cons, List.length_cons]
  omega

structure ReadResponse where
  version : HTTPVersion
  status : Nat
  headers : HeaderMap
  body : Bytes

def readResponse (text : Bytes) : Option ReadResponse := do
  let (version, text) ← readVersion text
  let text ← readSpace text
  let (status, text) ← readStatus text
  let text ← readSpace text
  let (_, text) ← cutAt (chr '\r') (chr '\n') text
  let (headers, body) ← readFields ∅ text
  return ⟨version, status, headers, body⟩

/-! ## Header lines -/

/-- The line can be split at its first `": "`. -/
def Header.Plain (header : Header) : Prop :=
  chr ':' ∉ header.key ∧ NoLineEnd header.key ∧ NoLineEnd header.value

theorem NoLineEnd.no_cr (h : NoLineEnd line) : chr '\r' ∉ line := fun hm => h _ hm (by decide)

theorem readFields_line {header : Header} (h : header.Plain) (map : HeaderMap) (rest : Bytes) :
    readFields map (header.line ++ (crlf ++ rest)) =
      readFields (map.insert header.key header.value) rest := by
  obtain ⟨key, value⟩ := header
  obtain ⟨hcolon, hkey, hvalue⟩ := h
  have hl : Header.line ⟨key, value⟩ = key ++ chr ':' :: chr ' ' :: value := rfl
  have hcr : chr '\r' ∉ key ++ chr ':' :: chr ' ' :: value := by
    have hc : chr '\r' ≠ chr ':' := by decide
    have hs : chr '\r' ≠ chr ' ' := by decide
    simp [hkey.no_cr, hvalue.no_cr, hc, hs]
  have hn : startsWith (key ++ chr ':' :: chr ' ' :: value ++ (crlf ++ rest)) crlf = false := by
    rw [Bool.eq_false_iff]
    intro hs
    obtain ⟨rest', hr⟩ := startsWith_iff.mp hs
    obtain ⟨x, w, hx⟩ : ∃ x w, key ++ chr ':' :: chr ' ' :: value = x :: w :=
      List.exists_cons_of_ne_nil (by simp)
    rw [hx] at hr hcr
    exact hcr ((List.cons.inj hr).1 ▸ List.mem_cons_self)
  have hcut : cutAt (chr '\r') (chr '\n') (key ++ chr ':' :: chr ' ' :: value ++ (crlf ++ rest)) =
      some (key ++ chr ':' :: chr ' ' :: value, rest) := cutAt_append hcr rest
  rw [hl, readFields, hn, if_neg Bool.false_ne_true]
  split
  · next h => rw [hcut] at h; cases h
  · next h =>
    rw [hcut] at h
    cases h
    rw [cutAt_append hcolon]

/-- By induction on the lines. -/
theorem readFields_lines (hh : ∀ header ∈ headers, header.Plain) (map : HeaderMap) (body : Bytes) :
    readFields map (encodeHeaders headers ++ (crlf ++ body)) =
      some (insertHeaders map headers, body) := by
  induction headers generalizing map with
  | nil =>
    show readFields map (crlf ++ body) = some (map, body)
    rw [readFields, startsWith_append, if_pos rfl, List.drop_left]
  | cons header headers ih =>
    have he : encodeHeaders (header :: headers) ++ (crlf ++ body) =
        header.line ++ (crlf ++ (encodeHeaders headers ++ (crlf ++ body))) := by
      simp [encodeHeaders]
    rw [he, readFields_line (hh header List.mem_cons_self),
      ih fun k hk => hh k (List.mem_cons_of_mem _ hk)]
    rfl

/-! ## Status lines -/

theorem readVersion_string {version : HTTPVersion} (hs : version.string = ret u) (rest : Bytes) :
    readVersion (u ++ rest) = some (version, rest) := by
  cases version with
  | HTTP_1_0 => cases hs; rfl
  | HTTP_1_1 => cases hs; rfl
  | HTTP_2_0 => cases hs; rfl
  | HTTP_INVALID => cases hs

theorem readStatus_append {n : Nat} (h : readStatus text = some (n, rest)) (v : Bytes) :
    readStatus (text ++ v) = some (n, rest ++ v) := by
  match text, h with
  | x :: y :: z :: text, h =>
    simp only [readStatus, List.cons_append] at h ⊢
    obtain ⟨hundreds, hx, h⟩ := Option.bind_eq_some_iff.mp h
    obtain ⟨tens, hy, h⟩ := Option.bind_eq_some_iff.mp h
    obtain ⟨ones, hz, h⟩ := Option.bind_eq_some_iff.mp h
    cases h
    rw [hx, hy, hz]
    rfl

/-- The number in front of a reason is that of the code, two codes apart. -/
theorem readStatus_string (status : HTTPStatusCode) : ∃ n reason,
    readStatus (statusCodeToString status) = some (n, chr ' ' :: reason) ∧ chr '\r' ∉ reason ∧
      (n = status.value ↔ status ≠ .MOVED_PERMANENTLY ∧ status ≠ .FOUND) := by
  cases status <;> exact ⟨_, _, rfl, by decide, by decide⟩

/-- What the reader makes of a printed response. -/
theorem readResponse_print {version : HTTPVersion} {map : HeaderMap} {status : HTTPStatusCode}
    {n : Nat} {reason : Bytes} (hs : version.string = ret u)
    (hn : readStatus (statusCodeToString status) = some (n, chr ' ' :: reason))
    (hr : chr '\r' ∉ reason) (hh : ∀ header ∈ headersOf map, header.Plain) (body : Bytes) :
    ∃ text, HTTPResponse.print ⟨⟨version, map, body⟩, status⟩ = ret text ∧
      readResponse text = some ⟨version, n, map, body⟩ := by
  have hp : HTTPResponse.print ⟨⟨version, map, body⟩, status⟩ =
      ret (u ++ chr ' ' :: (statusCodeToString status ++
        (crlf ++ (encodeHeaders (headersOf map) ++ (crlf ++ body))))) := by
    simp only [HTTPResponse.print, hs, ret_bind, printHeaders_eq, pure_eq]
    simp [lit]
  have hf := readFields_lines hh ∅ body
  rw [insertHeaders_headersOf] at hf
  refine ⟨_, hp, ?_⟩
  unfold readResponse
  rw [readVersion_string hs]
  show (readStatus _ >>= _) = _
  rw [readStatus_append hn]
  show (cutAt (chr '\r') (chr '\n') (reason ++ chr '\r' :: chr '\n' :: _) >>= _) = _
  rw [cutAt_append hr]
  show (readFields ∅ (encodeHeaders (headersOf map) ++ (crlf ++ body)) >>= _) = _
  rw [hf]
  rfl

/-! ## Printing and reading -/

/-- The text `operator<<` writes for the response is read as the response, with the number
    that the enumeration gives its status code. -/
def ReadsBack (response : HTTPResponse) : Prop :=
  ∃ text, response.print = ret text ∧ readResponse text =
    some ⟨response.version, response.status_code.value, response.headers, response.body⟩

theorem readsBack_iff {version : HTTPVersion} {map : HeaderMap} {body : Bytes}
    {status : HTTPStatusCode} (hv : version ≠ .HTTP_INVALID)
    (hh : ∀ header ∈ headersOf map, header.Plain) :
    ReadsBack ⟨⟨version, map, body⟩, status⟩ ↔
      status ≠ .MOVED_PERMANENTLY ∧ status ≠ .FOUND := by
  obtain ⟨u, hu⟩ : ∃ u, version.string = ret u := by
    cases version with
    | HTTP_1_0 => exact ⟨_, rfl⟩
    | HTTP_1_1 => exact ⟨_, rfl⟩
    | HTTP_2_0 => exact ⟨_, rfl⟩
    | HTTP_INVALID => exact absurd rfl hv
  obtain ⟨n, reason, hn, hr, hvalue⟩ := readStatus_string status
  obtain ⟨text, hp, ht⟩ := readResponse_print hu hn hr hh body
  rw [← hvalue]
  constructor
  · rintro ⟨text', hp', ht'⟩
    rw [hp, ret.injEq] at hp'
    rw [← hp', ht, Option.some.injEq, ReadResponse.mk.injEq] at ht'
    exact ht'.2.1
  · rintro rfl
    exact ⟨text, hp, ht⟩

/-- **A printed response is read back as it was exactly when its status code is neither
    `MOVED_PERMANENTLY` nor `FOUND`.** -/
theorem print_read_iff (response : HTTPResponse) (hv : response.version ≠ .HTTP_INVALID)
    (hh : ∀ name value, response.headers[name]? = some value →
      name ≠ [] ∧ chr ':' ∉ name ∧ NoLineEnd name ∧ NoLineEnd value) :
    ReadsBack response ↔
      response.status_code ≠ .MOVED_PERMANENTLY ∧ response.status_code ≠ .FOUND :=
  readsBack_iff hv fun _ hm => (hh _ _ (mem_headersOf.mp hm)).2

theorem print_read_iff_ok : ReadsBack (HTTPResponse.new .OK .HTTP_1_1) :=
  (print_read_iff (HTTPResponse.new .OK .HTTP_1_1) (by decide) (by
    intro name value h
    simp [HTTPResponse.new] at h)).mpr ⟨by decide, by decide⟩

/-- A redirection is answered as `300 Moved Permanently`. -/
theorem not_readsBack_movedPermanently :
    ¬ ∀ response : HTTPResponse, response.version ≠ .HTTP_INVALID →
      (∀ name value, response.headers[name]? = some value →
        name ≠ [] ∧ chr ':' ∉ name ∧ NoLineEnd name ∧ NoLineEnd value) → ReadsBack response := by
  intro h
  have hr := h (HTTPResponse.new .MOVED_PERMANENTLY .HTTP_1_1) (by decide) (by
    intro name value h
    simp [HTTPResponse.new] at h)
  have hp : ∀ header ∈ headersOf (∅ : HeaderMap), header.Plain := by
    intro header hm
    simp [headersOf] at hm
  exact ((readsBack_iff (by decide) hp).mp hr).1 rfl

end SimpleServ.Http
