import Mathlib
import SimpleServ.Utility.StringParser

/-
  Methods, versions, status codes, requests and responses (http.hpp, message.hpp).

  `HTTPMethod.string` and `HTTPVersion.string` are the arrays `HTTP_METHOD_STRINGS` and
  `HTTP_VERSION_STRINGS` at the enumerator; the version array has no entry for
  `HTTP_INVALID`, so reading it there is `ub`. A `std::map` is `Std.ExtTreeMap`: its list of
  pairs is in key order, as the printers walk it. `HTTPRequest.print` and
  `HTTPResponse.print` are the two `operator<<`. The unused array `HTTP_RESPONSE_STATUS`
  and `HTTPRequest::to_string`, which prints a pointer, are left out.

  `methodStringToEnum` and `versionStringToEnum` read a method and a version from a
  `StringParser`. `versionStringToEnum` ignores what each `expect` returns: on the view it
  acts as `skip`, which drops a literal where it stands and does nothing otherwise.
-/

namespace SimpleServ.Http

open SimpleServ.Cxx SimpleServ.Utility StringParser Outcome

/-! ## Enumerations and their texts -/

inductive HTTPMethod where
  | GET | POST | PUT | DELETE | HEAD | OPTIONS | TRACE | CONNECT
  deriving DecidableEq, Repr

/-- `HTTP_METHOD_STRINGS[method]`. -/
def HTTPMethod.string : HTTPMethod → Bytes
  | .GET => lit "GET"
  | .POST => lit "POST"
  | .PUT => lit "PUT"
  | .DELETE => lit "DELETE"
  | .HEAD => lit "HEAD"
  | .OPTIONS => lit "OPTIONS"
  | .TRACE => lit "TRACE"
  | .CONNECT => lit "CONNECT"

inductive HTTPVersion where
  | HTTP_1_0 | HTTP_1_1 | HTTP_2_0 | HTTP_INVALID
  deriving DecidableEq, Repr

/-- `HTTP_VERSION_STRINGS[version]`. -/
def HTTPVersion.string : HTTPVersion → Outcome Bytes
  | .HTTP_1_0 => ret (lit "HTTP/1.0")
  | .HTTP_1_1 => ret (lit "HTTP/1.1")
  | .HTTP_2_0 => ret (lit "HTTP/2.0")
  | .HTTP_INVALID => ub

inductive HTTPStatusCode where
  | CONTINUE | SWITCHING_PROTOCOLS
  | OK | CREATED | ACCEPTED | NO_CONTENT
  | MULTIPLE_CHOICES | MOVED_PERMANENTLY | FOUND | SEE_OTHER | NOT_MODIFIED
  | BAD_REQUEST | UNAUTHORIZED | FORBIDDEN | NOT_FOUND
  | INTERNAL_SERVER_ERROR | NOT_IMPLEMENTED | BAD_GATEWAY | SERVICE_UNAVAILABLE
  deriving DecidableEq, Repr

/-- The value that the enumeration gives the code. -/
def HTTPStatusCode.value : HTTPStatusCode → Nat
  | .CONTINUE => 100
  | .SWITCHING_PROTOCOLS => 101
  | .OK => 200
  | .CREATED => 201
  | .ACCEPTED => 202
  | .NO_CONTENT => 204
  | .MULTIPLE_CHOICES => 300
  | .MOVED_PERMANENTLY => 301
  | .FOUND => 302
  | .SEE_OTHER => 303
  | .NOT_MODIFIED => 304
  | .BAD_REQUEST => 400
  | .UNAUTHORIZED => 401
  | .FORBIDDEN => 403
  | .NOT_FOUND => 404
  | .INTERNAL_SERVER_ERROR => 500
  | .NOT_IMPLEMENTED => 501
  | .BAD_GATEWAY => 502
  | .SERVICE_UNAVAILABLE => 503

def statusCodeToString : HTTPStatusCode → Bytes
  | .CONTINUE => lit "100 Continue"
  | .SWITCHING_PROTOCOLS => lit "101 Switching Protocols"
  | .OK => lit "200 OK"
  | .CREATED => lit "201 Created"
  | .ACCEPTED => lit "202 Accepted"
  | .NO_CONTENT => lit "204 No Content"
  | .MULTIPLE_CHOICES => lit "300 Multiple Choices"
  | .MOVED_PERMANENTLY => lit "300 Moved Permanently"
  | .FOUND => lit "301 Found"
  | .SEE_OTHER => lit "303 See Other"
  | .NOT_MODIFIED => lit "304 Not Modified"
  | .BAD_REQUEST => lit "400 Bad Request"
  | .UNAUTHORIZED => lit "401 Unauthorized"
  | .FORBIDDEN => lit "403 Forbidden"
  | .NOT_FOUND => lit "404 Not Found"
  | .INTERNAL_SERVER_ERROR => lit "500 Internal Server Error"
  | .NOT_IMPLEMENTED => lit "501 Not Implemented"
  | .BAD_GATEWAY => lit "502 Bad Gateway"
  | .SERVICE_UNAVAILABLE => lit "503 Service Unavailable"

/-! ## Messages -/

/-- `std::map<std::string, std::string>`. -/
abbrev HeaderMap := Std.ExtTreeMap Bytes Bytes

def crlf : Bytes := lit "\r\n"

structure HTTPMessage where
  version : HTTPVersion := .HTTP_1_0
  headers : HeaderMap := ∅
  body : Bytes := []
  deriving DecidableEq

def HTTPMessage.setHeader (msg : HTTPMessage) (key value : Bytes) : HTTPMessage :=
  { msg with headers := msg.headers.insert key value }

def HTTPMessage.setContent (msg : HTTPMessage) (content : Bytes) : HTTPMessage :=
  { msg with body := content }

/-- The loop of both printers over the header map, the blank line and the body. -/
def HTTPMessage.printHeaders (msg : HTTPMessage) : Bytes :=
  (msg.headers.toList.flatMap fun header => header.1 ++ lit ": " ++ header.2 ++ crlf) ++
    crlf ++ msg.body

structure HTTPRequest extends HTTPMessage where
  method : HTTPMethod
  path : Bytes
  deriving DecidableEq

/-- The constructor. -/
def HTTPRequest.new (method : HTTPMethod) (path : Bytes) (version : HTTPVersion) : HTTPRequest :=
  { method := method, path := path, version := version }

def HTTPRequest.setHeader (request : HTTPRequest) (key value : Bytes) : HTTPRequest :=
  { request with toHTTPMessage := request.toHTTPMessage.setHeader key value }

def HTTPRequest.setContent (request : HTTPRequest) (content : Bytes) : HTTPRequest :=
  { request with toHTTPMessage := request.toHTTPMessage.setContent content }

def HTTPRequest.print (request : HTTPRequest) : Outcome Bytes := do
  let version ← request.version.string
  return request.method.string ++ lit " " ++ request.path ++ lit " " ++ version ++ crlf ++
    request.printHeaders

structure HTTPResponse extends HTTPMessage where
  status_code : HTTPStatusCode
  deriving DecidableEq

/-- The constructor. -/
def HTTPResponse.new (status_code : HTTPStatusCode) (version : HTTPVersion) : HTTPResponse :=
  { status_code := status_code, version := version, body := [] }

def HTTPResponse.setHeader (response : HTTPResponse) (key value : Bytes) : HTTPResponse :=
  { response with toHTTPMessage := response.toHTTPMessage.setHeader key value }

def HTTPResponse.setContent (response : HTTPResponse) (content : Bytes) : HTTPResponse :=
  { response with toHTTPMessage := response.toHTTPMessage.setContent content }

/-- `operator<<`, and `to_string`, which calls it on an empty stream. -/
def HTTPResponse.print (response : HTTPResponse) : Outcome Bytes := do
  let version ← response.version.string
  return version ++ lit " " ++ statusCodeToString response.status_code ++ crlf ++
    response.printHeaders

/-! ## Reading a method and a version -/

section Readers

variable {str : Bytes}

def transformFn (method : HTTPMethod) : Option ParserError → Except ParserError HTTPMethod
  | some e => .error e
  | none => .ok method

/-- `parser.move (1); return transform_fn (method) (parser.expect (word));` -/
def moveExpect (method : HTTPMethod) (word : Bytes) :
    ParserM str (Except ParserError HTTPMethod) := do
  move 1
  let res ← expect word
  return transformFn method res

/-- The `switch` of `method_string_to_enum`. -/
def methodSwitch (c : Byte) : ParserM str (Except ParserError HTTPMethod) :=
  if c = chr 'G' then moveExpect .GET (lit "ET")
  else if c = chr 'P' then do
    move 1
    let c' ← head
    if c' = chr 'O' then moveExpect .POST (lit "ST")
    else
      let res ← expect (lit "UT")
      return transformFn .PUT res
  else if c = chr 'D' then moveExpect .DELETE (lit "ELETE")
  else if c = chr 'H' then moveExpect .HEAD (lit "EAD")
  else if c = chr 'O' then moveExpect .OPTIONS (lit "PTIONS")
  else if c = chr 'T' then moveExpect .TRACE (lit "RACE")
  else if c = chr 'C' then moveExpect .CONNECT (lit "ONNECT")
  else do
    let token ← nextToken (chr ' ')
    return .error (parserError (lit "Invalid HTTP method string: " ++ token))

def methodStringToEnum : ParserM str (Except ParserError HTTPMethod) := do
  let c ← head
  methodSwitch c

def versionStringToEnum : ParserM str HTTPVersion := do
  let _ ← expect (lit "HTTP/")
  let c ← head
  if c = chr '2' then
    move 1
    let _ ← expect (lit ".0")
    return .HTTP_2_0
  else
    move 1
    let _ ← expect (lit "1.")
    let head1 ← head
    if head1 = chr '0' then
      move 1
      return .HTTP_1_0
    else
      move 1
      let _ ← expect (lit "1")
      return .HTTP_1_1

end Readers

end SimpleServ.Http
