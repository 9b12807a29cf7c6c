import GeoNS.Core

/-!
# HTTP data

The structures of a request, a response and a route, and the library calls a
request makes. The server's code runs as a list of such calls and a result.
-/

namespace GeoNS.Http

open CString

inductive HttpVersion
  | http09
  | http10
  | http11
  | http20
  | http30
  | unknown
  deriving DecidableEq, Repr

def HttpVersion.value : HttpVersion → Int
  | .http09 => 0
  | .http10 => 1
  | .http11 => 2
  | .http20 => 3
  | .http30 => 4
  | .unknown => -1

structure HttpConfig where
  acceptAnyMethod : Bool
  directoryIndexing : Bool
  trimLargeHeaders : Bool
  trimLargeBody : Bool

/-- `name` is the whole array; a name of its length has no terminator in it. -/
structure HttpMethod where
  name : Bytes
  isBodyRequired : Bool
  deriving DecidableEq, Repr

/-- `uri` is the whole array. The request has no body until its end. -/
structure HttpRequest where
  method : HttpMethod
  uri : Bytes
  version : HttpVersion
  requestLineOffset : Nat
  headersSize : Nat
  headers : Option Bytes
  headersOffset : Nat
  bodySize : Nat
  deriving DecidableEq, Repr

structure HttpResponse where
  statusCode : Nat
  reasonPhrase : Bytes
  headers : Option Bytes
  body : Bytes
  deriving DecidableEq, Repr

-- ---------------------------------------------------------------------------
-- String maps
-- ---------------------------------------------------------------------------

abbrev StringMap := List (Bytes × Bytes)

def createStringMap : StringMap := []

/-- The value of the first node with the key is replaced, or a node is added at
the head. -/
def stringMapPut (map : StringMap) (key value : Bytes) : StringMap :=
  if map.any (·.1 == key) then put map else (key, value) :: map
where
  put : StringMap → StringMap
    | [] => []
    | (k, v) :: map => if k == key then (k, value) :: map else (k, v) :: put map

def stringMapGet (map : StringMap) (key : Bytes) : Option Bytes :=
  (map.find? (·.1 == key)).map (·.2)

-- ---------------------------------------------------------------------------
-- Calls
-- ---------------------------------------------------------------------------

inductive Resource
  | request
  | requestHeaders
  | response
  | responseHeaders
  | parameterMap
  | parameter
  | file
  | fileContent
  | magicCookie
  | mimeType
  | entries
  deriving DecidableEq, Repr

/-- `invoke` is the call of a route's callback; the calls the callback makes
follow it. -/
inductive Call
  | recv (size : Int)
  | realloc (size : Int)
  | send (response : HttpResponse)
  | close
  | acquire (r : Resource)
  | release (r : Resource)
  | stat (path : Bytes)
  | fopen (path : Bytes)
  | magicFile (path : Bytes)
  | opendir (path : Bytes)
  | invoke (route : Nat) (params : StringMap)
  deriving DecidableEq, Repr

/-- `fault` is an access outside an array, or `free` of what was not allocated. -/
inductive Result
  | ret (value : Int)
  | fault
  deriving DecidableEq, Repr

structure Run where
  calls : List Call
  result : Result
  deriving DecidableEq, Repr

/-- `calls` and then `run`. -/
def Run.after (calls : List Call) (run : Run) : Run := ⟨calls ++ run.calls, run.result⟩

@[simp] theorem Run.after_calls (calls : List Call) (run : Run) :
    (run.after calls).calls = calls ++ run.calls := rfl

@[simp] theorem Run.after_result (calls : List Call) (run : Run) :
    (run.after calls).result = run.result := rfl

-- ---------------------------------------------------------------------------
-- Responses
-- ---------------------------------------------------------------------------

def httpStatuses : List (Nat × String) := [
  (100, "Continue"),
  (101, "Switching Protocols"),
  (102, "Processing"),
  (103, "Early Hints"),
  (200, "OK"),
  (201, "Created"),
  (202, "Accepted"),
  (203, "Non-Authoritative Information"),
  (204, "No Content"),
  (205, "Reset Content"),
  (206, "Partial Content"),
  (207, "Multi-Status"),
  (208, "Already Reported"),
  (226, "IM Used"),
  (300, "Multiple Choices"),
  (301, "Moved Permanently"),
  (302, "Found"),
  (303, "See Other"),
  (304, "Not Modified"),
  (305, "Use Proxy"),
  (307, "Temporary Redirect"),
  (308, "Permanent Redirect"),
  (400, "Bad Request"),
  (401, "Unauthorized"),
  (402, "Payment Required"),
  (403, "Forbidden"),
  (404, "Not Found"),
  (405, "Method Not Allowed"),
  (406, "Not Acceptable"),
  (407, "Proxy Authentication Required"),
  (408, "Request Timeout"),
  (409, "Conflict"),
  (410, "Gone"),
  (411, "Length Required"),
  (412, "Precondition Failed"),
  (413, "Payload Too Large"),
  (414, "URI Too Long"),
  (415, "Unsupported Media Type"),
  (416, "Range Not Satisfiable"),
  (417, "Expectation Failed"),
  (418, "I'm a Teapot"),
  (421, "Misdirected Request"),
  (422, "Unprocessable Entity"),
  (423, "Locked"),
  (424, "Failed Dependency"),
  (425, "Too Early"),
  (426, "Upgrade Required"),
  (428, "Precondition Required"),
  (429, "Too Many Requests"),
  (431, "Request Header Fields Too Large"),
  (451, "Unavailable For Legal Reasons"),
  (500, "Internal Server Error"),
  (501, "Not Implemented"),
  (502, "Bad Gateway"),
  (503, "Service Unavailable"),
  (504, "Gateway Timeout"),
  (505, "HTTP Version Not Supported"),
  (506, "Variant Also Negotiates"),
  (507, "Insufficient Storage"),
  (508, "Loop Detected"),
  (510, "Not Extended"),
  (511, "Network Authentication Required")]

def getReasonPhrase (statusCode : Nat) : Bytes :=
  match httpStatuses.find? (·.1 == statusCode) with
  | some (_, reasonPhrase) => bytes reasonPhrase
  | none => bytes "Unknown Status Code"

def geonsWebserverInfo : Bytes := bytes "GeoNSWS/" ++ geonsVersion ++ bytes " (" ++ osName ++ bytes ")"

def HttpResponse.head (response : HttpResponse) : Bytes :=
  bytes "HTTP/1.1 " ++ dec response.statusCode ++ bytes " " ++ response.reasonPhrase ++ bytes "\r\n" ++
    snprintf 64 (bytes "Server: " ++ geonsWebserverInfo) ++ bytes "\r\n" ++
    response.headers.getD [] ++ bytes "\r\n"

/-- The bytes `send_http_response` sends. -/
def sendHttpResponse (response : HttpResponse) : Bytes :=
  let serverHeader := snprintf 64 (bytes "Server: " ++ geonsWebserverInfo)
  let headersSize := 8 + 5 + response.reasonPhrase.length + 2 + (serverHeader.length + 2) +
    (response.headers.getD []).length + 2
  let responseSize := headersSize + response.body.length
  let buffer := List.replicate (responseSize + 1) 0
  let buffer := memcpy buffer 0 (snprintf (headersSize + 1) response.head)
  (memcpy buffer response.head.length response.body).take responseSize

/-- One header added to the block, which is `none` before the first one. -/
def setHttpResponseHeader (headers : Option Bytes) (name value : Bytes) : Option Bytes :=
  some (headers.getD [] ++ name ++ bytes ": " ++ value ++ bytes "\r\n")

/-- `free_http_response` frees the headers with the response. -/
def sendHttpStatus (statusCode : Nat) (body : Bytes) (headers : Option Bytes) : List Call :=
  [.acquire .response, .send ⟨statusCode, getReasonPhrase statusCode, headers, body⟩] ++
    (if headers.isSome then [.release .responseHeaders] else []) ++ [.release .response]

def sendHttpStatusBodyless (statusCode : Nat) : List Call := sendHttpStatus statusCode [] none

def killHttpConnection (request : HttpRequest) : List Call :=
  .close :: (if request.headers.isSome then [.release .requestHeaders] else []) ++
    [.release .request]

end GeoNS.Http
