import SimpleServ.Http.Message

/-
  The request parser (parser.cpp): request line, header lines and the whole request.

  `Except ParserError` is `utility::expected`. The header loop works on a copy of the view
  and writes it back on success only; it ends because each round removes at least the two
  bytes of a line end.
-/

namespace SimpleServ.Http

open SimpleServ.Cxx SimpleServ.Utility StringParser Outcome

variable {str : Bytes}

def asciiHT : Byte := 9

def parseRequestLine : ParserM str (Except ParserError HTTPRequest) := do
  match ← methodStringToEnum with
  | .error e => return .error e
  | .ok method =>
    if let some e ← expectTwo asciiHT (chr ' ') then
      return .error e
    consumeAllTwo asciiHT (chr ' ')
    let url ← nextToken (chr ' ')
    if let some e ← expectTwo asciiHT (chr ' ') then
      return .error e
    consumeAllTwo asciiHT (chr ' ')
    let version ← versionStringToEnum
    if version = .HTTP_INVALID then
      return .error ⟨none⟩
    if let some e ← expect crlf then
      return .error e
    return .ok (HTTPRequest.new method url version)

structure Header where
  key : Bytes
  value : Bytes
  deriving DecidableEq, Repr

def parseHeader (header : Bytes) : Outcome (Except ParserError Header) := do
  let (field_name, field_value) ← nextTokenOf header (chr ' ')
  if !endsWithChar field_name (chr ':') then
    let last ← back field_name
    return .error (parserError (lit "Expected header field name to end with ':', got: " ++ [last] ++
      lit " (" ++ decimal (charToInt last) ++ lit ")"))
  let field_name ← removeSuffix field_name 1
  let field_value ← removePrefix field_value (some 1)
  return .ok ⟨field_name, field_value⟩

/-- The `while` loop of `parse_message_headers`. -/
def headersLoop (str_view : Cursor str) (headers : List Header) :
    Outcome (Except ParserError (List Header × Cursor str)) :=
  if startsWith str_view.view crlf then ret (.ok (headers, str_view))
  else
    match findFirstOf str_view.view crlf with
    | none => ret (.error (parserError
        (lit "Could not find the terminating characters of the header.")))
    | some next_header =>
      match parseHeader (substrTo str_view.view (some next_header)) with
      | ret (.ok result) =>
        match _h : str_view.removePrefix (some (next_header + 2)) with
        | ret str_view' => headersLoop str_view' (headers ++ [result])
        | .throw e => .throw e
        | ub => ub
        | killed => killed
      | ret (.error e) => ret (.error e)
      | .throw e => .throw e
      | ub => ub
      | killed => killed
termination_by str_view.view.length
decreasing_by exact Cursor.removePrefix_shorter (by omega) _h

def parseMessageHeaders : ParserM str (Except ParserError (List Header)) := do
  let c ← get
  match ← headersLoop c [] with
  | .error e => return .error e
  | .ok (headers, str_view) =>
    -- `\r\n` by the loop's condition
    set (← str_view.removePrefix (some 2))
    return .ok headers

/-- The body of `parse_http_request` once the parser is built on `str`. -/
def parseRequest : ParserM str (Except ParserError HTTPRequest) := do
  match ← parseRequestLine with
  | .error e => return .error e
  | .ok request =>
    match ← parseMessageHeaders with
    | .error e => return .error e
    | .ok headers =>
      let request := headers.foldl (fun r header => r.setHeader header.key header.value) request
      let c ← get
      return .ok (request.setContent c.view)

def parseHttpRequest (str : Bytes) : Outcome (Except ParserError HTTPRequest) := do
  let (result, _) ← parseRequest.run (Cursor.start str)
  return result

example : parseHttpRequest (lit "GET / HTTP/1.1\r\nContent-Type: text/html\r\n\r\nhi") =
    ret (.ok (((HTTPRequest.new .GET (lit "/") .HTTP_1_1).setHeader (lit "Content-Type")
      (lit "text/html")).setContent (lit "hi"))) := by
  decide +kernel

end SimpleServ.Http
