import SimpleServ.Http.ResponseText

/-
  The request functions (request_handler.cpp, request_handler.hpp).

  Each is a template over a handler class, of which it makes an object and calls one method.
  The method is a parameter here; it may throw. `GETConditionals.match'` is `match`. Nothing
  else in the repository instantiates them, and none looks at the method of the request.

  `getRequest_of_text`: from the text of a request to the handler's method and back to a
  client. `responses_readBack_iff`: what the client reads of the other answers.
-/

namespace SimpleServ.Http

open SimpleServ.Cxx SimpleServ.Utility Outcome

/-! ## Requests without a handler -/

def optionsRequest (request : HTTPRequest) : HTTPResponse :=
  let response := HTTPResponse.new .OK .HTTP_1_1
  if request.path = lit "*" then
    response.setHeader (lit "Allow") (lit "GET, HEAD, POST, PUT, DELETE, TRACE, OPTIONS")
  else response

def traceRequest (request : HTTPRequest) : HTTPResponse :=
  (HTTPResponse.new .OK .HTTP_1_1).setContent request.body

/-! ## GET -/

inductive GETResultState where
  | OK | NOT_FOUND | ERROR | MOVED_PERMANENTLY
  deriving DecidableEq, Repr

structure GETResult where
  state : GETResultState
  body : Bytes
  deriving DecidableEq, Repr

structure GETConditionals where
  modified_since : Option Bytes
  unmodified_since : Option Bytes
  match' : Option Bytes
  none_match : Option Bytes
  deriving DecidableEq, Repr

def findIfExists (map : HeaderMap) (key : Bytes) : Option Bytes := map[key]?

def getRequest (get : Bytes → GETConditionals → Outcome GETResult) (request : HTTPRequest) :
    Outcome HTTPResponse := do
  let headers := request.headers
  let conditionals : GETConditionals := {
    modified_since := findIfExists headers (lit "If-Modified-Since")
    unmodified_since := findIfExists headers (lit "If-Unmodified-Since")
    match' := findIfExists headers (lit "If-Match")
    none_match := findIfExists headers (lit "If-None-Match") }
  let result ← get request.path conditionals
  match result.state with
  | .OK => return (HTTPResponse.new .OK .HTTP_1_1).setContent result.body
  | .NOT_FOUND => return HTTPResponse.new .NOT_FOUND .HTTP_1_1
  | .ERROR => return HTTPResponse.new .INTERNAL_SERVER_ERROR .HTTP_1_1
  | .MOVED_PERMANENTLY => return HTTPResponse.new .MOVED_PERMANENTLY .HTTP_1_1

/-! ## HEAD -/

def headRequest (head : Bytes → Outcome HeaderMap) (request : HTTPRequest) :
    Outcome HTTPResponse := do
  let result ← head request.path
  return result.toList.foldl (fun response header => response.setHeader header.1 header.2)
    (HTTPResponse.new .OK .HTTP_1_1)

/-! ## POST, PUT and DELETE -/

inductive POSTResultState where
  | OK | CREATED | NO_CONTENT | SEE_OTHER | ERROR
  deriving DecidableEq, Repr

structure POSTResult where
  state : POSTResultState
  body : Bytes
  deriving DecidableEq, Repr

def postRequest (post : Bytes → Bytes → Outcome POSTResult) (request : HTTPRequest) :
    Outcome HTTPResponse := do
  let result ← post request.path request.body
  match result.state with
  | .OK => return (HTTPResponse.new .OK .HTTP_1_1).setContent result.body
  | .CREATED => return (HTTPResponse.new .CREATED .HTTP_1_1).setContent result.body
  | .NO_CONTENT => return HTTPResponse.new .NO_CONTENT .HTTP_1_1
  | .SEE_OTHER => return HTTPResponse.new .SEE_OTHER .HTTP_1_1
  | .ERROR => return HTTPResponse.new .INTERNAL_SERVER_ERROR .HTTP_1_1

inductive PUTResult where
  | OK | NOT_FOUND | ERROR | MOVED_PERMANENTLY | UNIMPLEMENTED
  deriving DecidableEq, Repr

def putRequest (put : Bytes → Bytes → Outcome PUTResult) (request : HTTPRequest) :
    Outcome HTTPResponse := do
  let result ← put request.path request.body
  match result with
  | .OK => return HTTPResponse.new .OK .HTTP_1_1
  | .NOT_FOUND => return HTTPResponse.new .NOT_FOUND .HTTP_1_1
  | .ERROR => return HTTPResponse.new .INTERNAL_SERVER_ERROR .HTTP_1_1
  | .MOVED_PERMANENTLY => return HTTPResponse.new .MOVED_PERMANENTLY .HTTP_1_1
  | .UNIMPLEMENTED => return HTTPResponse.new .NOT_IMPLEMENTED .HTTP_1_1

inductive DELETEResult where
  | DELETED | DELETE_ACCEPTED | NOT_FOUND | ERROR
  deriving DecidableEq, Repr

def deleteRequest (del : Bytes → Outcome DELETEResult) (request : HTTPRequest) :
    Outcome HTTPResponse := do
  let result ← del request.path
  match result with
  | .DELETED => return HTTPResponse.new .OK .HTTP_1_1
  | .DELETE_ACCEPTED => return HTTPResponse.new .ACCEPTED .HTTP_1_1
  | .NOT_FOUND => return HTTPResponse.new .NOT_FOUND .HTTP_1_1
  | .ERROR => return HTTPResponse.new .INTERNAL_SERVER_ERROR .HTTP_1_1

/-! ## The answers -/

/-- An answer without headers. -/
def plainResponse (status : HTTPStatusCode) (body : Bytes) : HTTPResponse :=
  (HTTPResponse.new status .HTTP_1_1).setContent body

def GETResultState.status : GETResultState → HTTPStatusCode
  | .OK => .OK
  | .NOT_FOUND => .NOT_FOUND
  | .ERROR => .INTERNAL_SERVER_ERROR
  | .MOVED_PERMANENTLY => .MOVED_PERMANENTLY

def GETResult.response (result : GETResult) : HTTPResponse :=
  plainResponse result.state.status (if result.state = .OK then result.body else [])

/-- The conditions in header lines: of lines with one name the last one counts. -/
def conditionals (headers : List Header) : GETConditionals where
  modified_since := lastValue headers (lit "If-Modified-Since")
  unmodified_since := lastValue headers (lit "If-Unmodified-Since")
  match' := lastValue headers (lit "If-Match")
  none_match := lastValue headers (lit "If-None-Match")

/-- One of the request functions can answer the request so. A method for HEAD gives headers that
    can stand on a line. -/
inductive Answered (request : HTTPRequest) : HTTPResponse → Prop where
  | options : Answered request (optionsRequest request)
  | trace : Answered request (traceRequest request)
  | get {response : HTTPResponse} (get : Bytes → GETConditionals → Outcome GETResult)
    (h : getRequest get request = ret response) : Answered request response
  | head {response : HTTPResponse} (head : Bytes → Outcome HeaderMap) (map : HeaderMap)
    (hm : head request.path = ret map) (hp : ∀ header ∈ headersOf map, header.Plain)
    (h : headRequest head request = ret response) : Answered request response
  | post {response : HTTPResponse} (post : Bytes → Bytes → Outcome POSTResult)
    (h : postRequest post request = ret response) : Answered request response
  | put {response : HTTPResponse} (put : Bytes → Bytes → Outcome PUTResult)
    (h : putRequest put request = ret response) : Answered request response
  | delete {response : HTTPResponse} (del : Bytes → Outcome DELETEResult)
    (h : deleteRequest del request = ret response) : Answered request response

variable {request : HTTPRequest} {response : HTTPResponse} {status : HTTPStatusCode}
  {get : Bytes → GETConditionals → Outcome GETResult} {s mid body : Bytes} {head : LineHead}
  {version : HTTPVersion} {headers : List Header} {map : HeaderMap}

theorem readsBack_plainResponse (status : HTTPStatusCode) (body : Bytes) (hf : status ≠ .FOUND) :
    ReadsBack (plainResponse status body) ↔ status ≠ .MOVED_PERMANENTLY := by
  have hplain : ∀ header ∈ headersOf (∅ : HeaderMap), header.Plain := by
    intro header hm
    simp [headersOf] at hm
  have hv : HTTPVersion.HTTP_1_1 ≠ .HTTP_INVALID := by decide
  exact (readsBack_iff hv hplain).trans (and_iff_left hf)

theorem getRequest_eq (get : Bytes → GETConditionals → Outcome GETResult) (request : HTTPRequest) :
    getRequest get request = (do
      let result ← get request.path ⟨request.headers[lit "If-Modified-Since"]?,
        request.headers[lit "If-Unmodified-Since"]?, request.headers[lit "If-Match"]?,
        request.headers[lit "If-None-Match"]?⟩
      ret result.response) := by
  unfold getRequest findIfExists
  dsimp only
  congr 1
  funext result
  unfold GETResult.response
  cases result.state <;> rfl

theorem readsBack_getResponse (result : GETResult) :
    ReadsBack result.response ↔ result.state ≠ .MOVED_PERMANENTLY := by
  have hf : result.state.status ≠ .FOUND := by cases result.state <;> decide
  refine (readsBack_plainResponse _ _ hf).trans ?_
  cases result.state <;> decide

/-- The loop over the handler's headers gives its map. -/
theorem headRequest_eq (head : Bytes → Outcome HeaderMap) (request : HTTPRequest) :
    headRequest head request = (do
      let map ← head request.path
      ret ⟨⟨.HTTP_1_1, map, []⟩, .OK⟩) := by
  have hloop (headers : List (Bytes × Bytes)) (response : HTTPResponse) :
      headers.foldl (fun response header => response.setHeader header.1 header.2) response =
        { response with
          headers := insertHeaders response.headers (headers.map fun p => ⟨p.1, p.2⟩) } := by
    induction headers generalizing response with
    | nil => rfl
    | cons header headers ih =>
      rw [List.foldl_cons, ih]
      rfl
  unfold headRequest
  congr 1
  funext map
  rw [hloop]
  show ret (⟨⟨.HTTP_1_1, insertHeaders ∅ (headersOf map), []⟩, .OK⟩ : HTTPResponse) = _
  rw [insertHeaders_headersOf]

set_option maxRecDepth 4000 in
theorem allow_plain : ∀ header ∈ headersOf ((∅ : HeaderMap).insert (lit "Allow")
    (lit "GET, HEAD, POST, PUT, DELETE, TRACE, OPTIONS")), header.Plain := by
  rintro ⟨key, value⟩ hm
  rw [mem_headersOf, Std.ExtTreeMap.getElem?_insert] at hm
  dsimp only at hm
  split at hm
  · next hk =>
    obtain rfl := Std.LawfulEqCmp.eq_of_compare hk
    obtain rfl := Option.some.inj hm
    unfold Header.Plain NoLineEnd
    decide
  · rw [Std.ExtTreeMap.getElem?_empty] at hm
    cases hm

/-! ## From text to text -/

/-- **A GET handler is asked what the text asks, and its answer can be read.** On every text that
    the parser accepts, the method gets the target and the conditions in the header lines, and
    what its result is printed as is read back exactly when that is no redirection. -/
theorem getRequest_of_text (get : Bytes → GETConditionals → Outcome GETResult) (s mid : Bytes)
    (head : LineHead) (version : HTTPVersion) (headers : List Header) (body : Bytes)
    (hl : RequestLine s head version mid) (hb : HeaderBlock mid headers body) :
    ∃ request, parseHttpRequest s = ret (.ok request) ∧
      getRequest get request =
        (get head.target (conditionals headers) >>= fun result => ret result.response) ∧
      ∀ result : GETResult, ReadsBack result.response ↔ result.state ≠ .MOVED_PERMANENTLY := by
  refine ⟨_, parseHttpRequest_ok ⟨head, version, mid, headers, body, hl, hb, rfl⟩, ?_,
    readsBack_getResponse⟩
  have hvalue (name : Bytes) : (insertHeaders ∅ headers)[name]? = lastValue headers name := by
    rw [insertHeaders_getElem?, Std.ExtTreeMap.getElem?_empty, Option.or_none]
  rw [getRequest_eq, buildRequest_eq]
  dsimp only
  rw [hvalue, hvalue, hvalue, hvalue]
  rfl

/-- A handler that answers with the tag it is asked for. -/
def echoTag (_path : Bytes) (conditionals : GETConditionals) : Outcome GETResult :=
  ret ⟨.OK, conditionals.match'.getD []⟩

set_option maxRecDepth 4000 in
/-- Of two conditions the handler gets the second one. -/
theorem getRequest_of_text_repeatedTag : ∃ request,
    parseHttpRequest (lit "GET / HTTP/1.1\r\nIf-Match: a\r\nIf-Match: b\r\n\r\n") =
      ret (.ok request) ∧
    getRequest echoTag request = ret (plainResponse .OK (lit "b")) ∧
    ReadsBack (plainResponse .OK (lit "b")) := by
  let head : LineHead := ⟨.GET, lit " ", lit "/", [], by decide, by unfold Blanks; decide,
    by decide, by decide, notAhead_cons.mpr (by decide), by unfold Blanks; decide⟩
  let headers : List Header := [⟨lit "If-Match", lit "a"⟩, ⟨lit "If-Match", lit "b"⟩]
  have hb : HeaderBlock (encodeHeaders headers ++ (crlf ++ [])) headers [] :=
    headerBlock_of_encode (by decide) []
  have hl : RequestLine (lit "GET / HTTP/1.1\r\nIf-Match: a\r\nIf-Match: b\r\n\r\n") head
      .HTTP_1_1 (encodeHeaders headers ++ (crlf ++ [])) :=
    ⟨lit "HTTP/1.1" ++ (crlf ++ (encodeHeaders headers ++ (crlf ++ []))), by decide,
      notAhead_cons.mpr (by decide), versionText_http11 _⟩
  obtain ⟨request, hp, hg, hr⟩ := getRequest_of_text echoTag _ _ head _ headers [] hl hb
  have hvalue : lastValue headers (lit "If-Match") = some (lit "b") := by decide
  refine ⟨request, hp, hg.trans ?_, (hr ⟨.OK, lit "b"⟩).mpr (by decide)⟩
  show ret (GETResult.response ⟨.OK, (lastValue headers (lit "If-Match")).getD []⟩) = _
  rw [hvalue]
  rfl

/-- **Every answer of a request function is read back exactly when it is no permanent
    redirection.** -/
theorem responses_readBack_iff (request : HTTPRequest) (response : HTTPResponse)
    (h : Answered request response) :
    ReadsBack response ↔ response.status_code ≠ .MOVED_PERMANENTLY := by
  have hplain (status : HTTPStatusCode) (body : Bytes) (hf : status ≠ .FOUND) :
      ReadsBack (plainResponse status body) ↔
        (plainResponse status body).status_code ≠ .MOVED_PERMANENTLY :=
    readsBack_plainResponse status body hf
  cases h with
  | options =>
    unfold optionsRequest
    dsimp only
    split
    · exact iff_of_true ((readsBack_iff (by decide) allow_plain).mpr ⟨by decide, by decide⟩)
        (by decide)
    · exact hplain .OK [] (by decide)
  | trace => exact hplain .OK request.body (by decide)
  | get get h =>
    rw [getRequest_eq] at h
    obtain ⟨result, -, h⟩ := bind_eq_ret h
    cases h
    refine hplain result.state.status _ ?_
    cases result.state <;> decide
  | head head map hm hp h =>
    rw [headRequest_eq, hm] at h
    cases h
    exact (readsBack_iff (by decide) hp).trans (and_iff_left (by decide))
  | post post h =>
    obtain ⟨⟨state, body⟩, -, h⟩ := bind_eq_ret h
    cases state with
    | OK => cases h; exact hplain .OK body (by decide)
    | CREATED => cases h; exact hplain .CREATED body (by decide)
    | NO_CONTENT => cases h; exact hplain .NO_CONTENT [] (by decide)
    | SEE_OTHER => cases h; exact hplain .SEE_OTHER [] (by decide)
    | ERROR => cases h; exact hplain .INTERNAL_SERVER_ERROR [] (by decide)
  | put put h =>
    obtain ⟨result, -, h⟩ := bind_eq_ret h
    cases result with
    | OK => cases h; exact hplain .OK [] (by decide)
    | NOT_FOUND => cases h; exact hplain .NOT_FOUND [] (by decide)
    | ERROR => cases h; exact hplain .INTERNAL_SERVER_ERROR [] (by decide)
    | MOVED_PERMANENTLY => cases h; exact hplain .MOVED_PERMANENTLY [] (by decide)
    | UNIMPLEMENTED => cases h; exact hplain .NOT_IMPLEMENTED [] (by decide)
  | delete del h =>
    obtain ⟨result, -, h⟩ := bind_eq_ret h
    cases result with
    | DELETED => cases h; exact hplain .OK [] (by decide)
    | DELETE_ACCEPTED => cases h; exact hplain .ACCEPTED [] (by decide)
    | NOT_FOUND => cases h; exact hplain .NOT_FOUND [] (by decide)
    | ERROR => cases h; exact hplain .INTERNAL_SERVER_ERROR [] (by decide)

theorem responses_readBack_iff_created : ReadsBack (plainResponse .CREATED (lit "7")) :=
  (responses_readBack_iff (HTTPRequest.new .POST (lit "/") .HTTP_1_1) _
    (.post (fun _ _ => ret ⟨.CREATED, lit "7"⟩) rfl)).mpr (by decide)

end SimpleServ.Http
