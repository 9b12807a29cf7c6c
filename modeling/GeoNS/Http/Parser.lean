import GeoNS.Http.Specs

/-!
# Reading a request

`parse_http_request` reads the connection's buffer as one C string. A search
that fails gives a difference with the NULL pointer, and an array that is
filled to its end is read on into what lies behind it.
-/

namespace GeoNS.Http

open CString

/-- The configuration, the outcomes of the calls of one request, and the memory
its string functions can reach: where the buffer is, the strings behind its
end by their offsets, and what lies behind `request_line`. -/
structure Env where
  config : HttpConfig
  address : Nat
  beyond : Nat → Bytes
  lineTail : Bytes
  realloc : Bool
  isFile : Bytes → Bool
  isDirectory : Bytes → Bool
  fopen : Bool
  fileSize : Option Nat
  fileContent : Bytes
  memalloc : Bool
  magicOpen : Bool
  magicLoad : Bool
  magicFile : Option Bytes
  entries : Option (Option Bytes)

def Env.ok : Env where
  config := ⟨false, false, false, false⟩
  address := 0
  beyond := fun _ => []
  lineTail := []
  realloc := true
  isFile := fun _ => true
  isDirectory := fun _ => false
  fopen := true
  fileSize := some 0
  fileContent := []
  memalloc := true
  magicOpen := true
  magicLoad := true
  magicFile := some (bytes "text/html")
  entries := some none

-- ---------------------------------------------------------------------------
-- Methods
-- ---------------------------------------------------------------------------

/-- The request as `memalloc` returns it. -/
def HttpRequest.empty : HttpRequest where
  method := ⟨List.replicate maxHttpMethodLength 0, false⟩
  uri := List.replicate maxHttpUriLength 0
  version := .http09
  requestLineOffset := 0
  headersSize := 0
  headers := none
  headersOffset := 0
  bodySize := 0

/-- The request's memory from its method on: the name, the byte of the flag,
the URI and the padding before the version. -/
def HttpRequest.nameMemory (request : HttpRequest) : Bytes :=
  request.method.name ++
    (if request.method.isBodyRequired then 1 else 0) :: (request.uri ++ [0, 0])

def HttpRequest.methodName (request : HttpRequest) : Bytes := cstr request.nameMemory

def HttpRequest.uriText (request : HttpRequest) : Bytes := cstr (request.uri ++ [0, 0])

def toUpperString (mem : Bytes) : Bytes :=
  (cstr mem).map toupper ++ mem.drop (cstr mem).length

def HttpRequest.upperMethod (request : HttpRequest) : HttpRequest :=
  let mem := toUpperString request.nameMemory
  { request with
    method := { request.method with name := mem.take maxHttpMethodLength }
    uri := (mem.drop (maxHttpMethodLength + 1)).take maxHttpUriLength }

def HttpRequest.methodAmong (request : HttpRequest) (names : List String) : Bool :=
  names.any fun name => (bytes name).isPrefixOf request.methodName

def bodyLessMethods : List String := ["GET", "HEAD", "DELETE", "OPTIONS"]

/-- Two of the literals are one: there is no comma between them. -/
def standardMethods : List String :=
  ["GET", "HEAD", "POST", "PATCHPUT", "DELETE", "CONNECT", "OPTIONS", "TRACE"]

def isBodyRequired (request : HttpRequest) : HttpRequest :=
  let request := request.upperMethod
  { request with
    method := { request.method with isBodyRequired := !request.methodAmong bodyLessMethods } }

/-- The result, and the request after its method was put in upper case. -/
def isStandardHttpMethod (request : HttpRequest) : Bool × HttpRequest :=
  let request := request.upperMethod
  (request.methodAmong standardMethods, request)

-- ---------------------------------------------------------------------------
-- The request line
-- ---------------------------------------------------------------------------

def parseVersion (token : Bytes) : HttpVersion :=
  if (bytes "HTTP/0.9").isPrefixOf token then .http09
  else if (bytes "HTTP/1.0").isPrefixOf token then .http10
  else if (bytes "HTTP/1.1").isPrefixOf token then .http11
  else if (bytes "HTTP/2.0").isPrefixOf token then .http20
  else if (bytes "HTTP/3.0").isPrefixOf token then .http30
  else .unknown

def parseRequestLine (request : HttpRequest) (requestLine : Bytes) : HttpRequest :=
  match strtok 32 requestLine with
  | [] => request
  | name :: rest =>
    let request := isBodyRequired { request with
      method := { request.method with name := strncpy maxHttpMethodLength name } }
    match rest with
    | [] => request
    | uri :: rest =>
      let request := { request with uri := strncpy maxHttpUriLength uri }
      match rest with
      | [] => request
      | version :: _ => { request with version := parseVersion version }

/-- The request line in its array; a line of the array's length is read on
behind it. -/
def requestLine (env : Env) (line : Bytes) : Bytes :=
  cstr (strncpy (maxHttpMethodLength + maxHttpUriLength + maxHttpVersionLength) line ++ env.lineTail)

-- ---------------------------------------------------------------------------
-- Headers
-- ---------------------------------------------------------------------------

/-- A match of `^([^:]+):[[:space:]]*(.*)$`. -/
def matchHeader (line : Bytes) : Option (Bytes × Bytes) :=
  let name := line.takeWhile (· ≠ 58)
  match line.drop name.length with
  | [] => none
  | _ :: rest => if name = [] then none else some (name, rest.dropWhile isspace)

/-- Names are compared to the size of a pointer, and the search ends at the
first line that is no header. -/
def getHttpHeaderValue (headers headerName : Bytes) : Option Bytes :=
  search (strtok 10 headers)
where
  search : List Bytes → Option Bytes
    | [] => none
    | line :: lines =>
      match matchHeader line with
      | none => none
      | some (name, value) =>
        if headerName.take 8 == name.take 8 then some value else search lines

/-- The `size_t` a `Content-Length` header gives. -/
def contentLength (headers : Bytes) : Nat :=
  match getHttpHeaderValue headers (bytes "Content-Length") with
  | none => 0
  | some value =>
    let (n, converted) := strtol value
    if converted then (n % 2 ^ 64).toNat else 0

-- ---------------------------------------------------------------------------
-- The request
-- ---------------------------------------------------------------------------

/-- What `parse_http_request` leaves: its calls, the request (or NULL) and the
connection's `buffer_size`. -/
structure Parsed where
  calls : List Call
  request : Option HttpRequest
  bufferSize : Int
  deriving DecidableEq, Repr

def rejectRequest (request : HttpRequest) (statusCode : Nat) : List Call :=
  sendHttpStatusBodyless statusCode ++ killHttpConnection request

/-- The end of `parse_http_request`: the body is received with the head. -/
def receiveRequest (env : Env) (request : HttpRequest) (bufferSize : Int) : Parsed :=
  if !request.method.isBodyRequired then ⟨[.recv bufferSize], some request, bufferSize⟩
  else
    let request := { request with bodySize := contentLength (request.headers.getD []) }
    if request.bodySize = 0 then ⟨[], some request, bufferSize⟩
    else
      let size := Int.bmod (request.headersOffset + request.bodySize) (2 ^ 64)
      if size > maxHttpRequestSize ∧ !env.config.trimLargeBody then
        ⟨rejectRequest request 413, none, size⟩
      else
        let size := min size maxHttpRequestSize
        if env.realloc then ⟨[.realloc size, .recv size], some request, size⟩
        else ⟨.realloc size :: rejectRequest request 500, none, size⟩

/-- A pointer into the buffer, or NULL, less the buffer's address. -/
def pointerOffset (env : Env) : Option Nat → Int
  | some i => i
  | none => -env.address

def toUshort (i : Int) : Nat := (i % 65536).toNat

def stringAt (env : Env) (text : Bytes) (offset : Nat) : Bytes :=
  if offset ≤ text.length then text.drop offset else env.beyond offset

/-- The request with the offsets of its parts. -/
def requestOffsets (env : Env) (text : Bytes) : HttpRequest :=
  let requestLineOffset := toUshort (pointerOffset env (strstr text (bytes "\n")))
  let headersOffset := toUshort (pointerOffset env (strstr text (bytes "\r\n\r\n")) + 4)
  let headersSize := toUshort (headersOffset - requestLineOffset)
  { HttpRequest.empty with requestLineOffset, headersOffset, headersSize }

/-- The request with its headers, cut to the size that is allowed, and the parts
of its first line that is not empty. -/
def requestHead (env : Env) (text : Bytes) (request : HttpRequest) : HttpRequest :=
  let headersSize := min request.headersSize baseHttpRequestHeaderSize
  let headers := (stringAt env text (request.requestLineOffset + 1)).take headersSize
  let request := { request with headersSize, headers := some headers }
  match strtok 10 text with
  | [] => request
  | line :: _ => parseRequestLine request (requestLine env line)

def parseHttpRequest (env : Env) (text : Bytes) (bufferSize : Int) : Parsed :=
  let request := requestOffsets env text
  if request.headersSize > baseHttpRequestHeaderSize ∧ !env.config.trimLargeHeaders then
    ⟨.acquire .request :: rejectRequest request 431, none, bufferSize⟩
  else
    let received := receiveRequest env (requestHead env text request) bufferSize
    { received with calls := .acquire .request :: .acquire .requestHeaders :: received.calls }

-- ---------------------------------------------------------------------------
-- The ways it ends
-- ---------------------------------------------------------------------------

def Call.isReceive : Call → Bool
  | .recv _ | .realloc _ => true
  | _ => false

inductive Received : Parsed → Prop
  | accepted (calls : List Call) (request : HttpRequest) (n : Int)
      (h : ∀ call ∈ calls, call.isReceive) (hheaders : request.headers.isSome) :
    Received ⟨calls, some request, n⟩
  | rejected (calls : List Call) (request : HttpRequest) (statusCode : Nat) (n : Int)
      (h : ∀ call ∈ calls, call.isReceive) (hheaders : request.headers.isSome) :
    Received ⟨calls ++ rejectRequest request statusCode, none, n⟩

theorem receiveRequest_received (env : Env) {request : HttpRequest} (h : request.headers.isSome)
    (n : Int) : Received (receiveRequest env request n) := by
  unfold receiveRequest
  split
  · exact .accepted _ _ _ (by simp [Call.isReceive]) h
  dsimp only
  split
  · exact .accepted _ _ _ (by simp) h
  split
  · exact .rejected [] _ 413 _ (by simp) h
  split
  · exact .accepted _ _ _ (by simp [Call.isReceive]) h
  · exact .rejected [_] _ 500 _ (by simp [Call.isReceive]) h

theorem parseRequestLine_frame (request : HttpRequest) (line : Bytes) : ∃ method uri version,
    parseRequestLine request line = { request with method, uri, version } := by
  unfold parseRequestLine
  split
  · exact ⟨_, _, _, rfl⟩
  dsimp only
  split
  · exact ⟨_, _, _, rfl⟩
  · split <;> exact ⟨_, _, _, rfl⟩

theorem requestHead_frame (env : Env) (text : Bytes) (request : HttpRequest) :
    ∃ method uri version,
      let headersSize := min request.headersSize baseHttpRequestHeaderSize
      requestHead env text request = { request with
        method, uri, version, headersSize
        headers := some ((stringAt env text (request.requestLineOffset + 1)).take headersSize) } := by
  unfold requestHead
  dsimp only
  split
  · exact ⟨_, _, _, rfl⟩
  · obtain ⟨method, uri, version, heq⟩ := parseRequestLine_frame _ (requestLine env _)
    exact ⟨method, uri, version, heq⟩

theorem requestHead_headers (env : Env) (text : Bytes) (request : HttpRequest) :
    (requestHead env text request).headers.isSome := by
  obtain ⟨method, uri, version, heq⟩ := requestHead_frame env text request
  rw [heq]
  rfl

theorem parseHttpRequest_cases (env : Env) (text : Bytes) (n : Int) :
    (∃ request, HttpRequest.headers request = none ∧
      parseHttpRequest env text n = ⟨.acquire .request :: rejectRequest request 431, none, n⟩) ∨
    ∃ received, Received received ∧ parseHttpRequest env text n =
      { received with calls := .acquire .request :: .acquire .requestHeaders :: received.calls } := by
  unfold parseHttpRequest
  dsimp only
  split
  · exact .inl ⟨_, rfl, rfl⟩
  · exact .inr ⟨_, receiveRequest_received env (requestHead_headers env text _) n, rfl⟩

theorem Call.forall_isReceive {P : Call → Prop} (hrecv : ∀ n, P (.recv n))
    (hrealloc : ∀ n, P (.realloc n)) (call : Call) (h : call.isReceive) : P call := by
  cases call with
  | recv n => exact hrecv n
  | realloc n => exact hrealloc n
  | _ => contradiction

theorem parseHttpRequest_calls (h : (parseHttpRequest env text n).request = some request) :
    ∃ calls, (parseHttpRequest env text n).calls =
        .acquire .request :: .acquire .requestHeaders :: calls ∧ ∀ call ∈ calls, call.isReceive := by
  rcases parseHttpRequest_cases env text n with ⟨rejected, -, heq⟩ | ⟨received, hreceived, heq⟩
  · rw [heq] at h
    contradiction
  rw [heq] at h ⊢
  cases hreceived with
  | accepted calls request n hcalls => exact ⟨calls, rfl, hcalls⟩
  | rejected => contradiction

end GeoNS.Http
