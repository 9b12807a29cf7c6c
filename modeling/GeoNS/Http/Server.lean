import GeoNS.Http.Router

/-!
# The HTTP callback

`http_server_callback` parses a request, checks it, and answers it with a
route, a file or a directory listing; and the callbacks of the built-in
routes.
-/

namespace GeoNS.Http

open CString

/-- What `%d` prints for a `size_t`. -/
def decInt (n : Nat) : Bytes :=
  let i := Int.bmod n (2 ^ 32)
  if i < 0 then 45 :: dec i.natAbs else dec i.natAbs

def responseHeaders (contentType contentLength : Bytes) : Option Bytes :=
  let headers := setHttpResponseHeader none (bytes "Content-Type") contentType
  let headers := setHttpResponseHeader headers (bytes "Content-Length") contentLength
  setHttpResponseHeader headers (bytes "Connection") (bytes "Close")

-- ---------------------------------------------------------------------------
-- Built-in routes
-- ---------------------------------------------------------------------------

def sendPage (body : Bytes) (request : HttpRequest) : List Call :=
  .acquire .responseHeaders ::
    sendHttpStatus 200 body (responseHeaders (bytes "text/html") (decInt body.length)) ++
      killHttpConnection request

def callbackHome : HttpCallback := fun request _ => sendPage (bytes "<h1>Welcome to GeoNS</h1>") request

def callbackAbout : HttpCallback := fun request _ =>
  sendPage (bytes "<h1>Welcome to about page!</h1>") request

/-- The copy `string_map_get` makes is freed; without the parameter it is NULL. -/
def test : HttpCallback := fun request params =>
  (if (stringMapGet params (bytes "username")).isSome then
    [.acquire .parameter, .release .parameter] else []) ++ callbackAbout request params

/-- The results of the registrations are not looked at. -/
def setupGeonsHttpRouter (routes : List HttpRoute) : List HttpRoute :=
  let routes := (Router.route routes (bytes "GET|POST") (bytes "/") callbackHome).getD routes
  let routes := (Router.get routes (bytes "/about") callbackAbout).getD routes
  (Router.get routes (bytes "/users/\x7busername\x7d") test).getD routes

-- ---------------------------------------------------------------------------
-- Files and directories
-- ---------------------------------------------------------------------------

def getMimeType (env : Env) (filePath : Bytes) : List Call × Option Bytes :=
  if !env.magicOpen then ([], none)
  else if !env.magicLoad then ([.acquire .magicCookie, .release .magicCookie], none)
  else
    match env.magicFile with
    | none => ([.acquire .magicCookie, .magicFile filePath, .release .magicCookie], none)
    | some mimeType =>
      ([.acquire .magicCookie, .magicFile filePath, .acquire .mimeType, .release .magicCookie],
        some mimeType)

def getFileSize (env : Env) (filePath : Bytes) : List Call × Nat :=
  match env.fileSize with
  | none => ([.fopen filePath], 0)
  | some size => ([.fopen filePath, .acquire .file, .release .file], size)

/-- What `fread` leaves in the zeroed buffer of the file's size. -/
def readFile (env : Env) (size : Nat) : Bytes :=
  env.fileContent.take size ++ List.replicate (size - env.fileContent.length) 0

/-- The branch of a regular file. A MIME type that libmagic does not give is
replaced by a literal, which is freed like the copy it stands for. -/
def serveFile (env : Env) (request : HttpRequest) (filePath : Bytes) : Run :=
  if !env.fopen then ⟨.fopen filePath :: killHttpConnection request, .ret (-1)⟩
  else
    let (sizeCalls, size) := getFileSize env filePath
    let opened := .fopen filePath :: .acquire .file :: sizeCalls
    if !env.memalloc then
      ⟨opened ++ .release .file :: killHttpConnection request, .ret (-1)⟩
    else
      let (mimeCalls, mimeType) := getMimeType env filePath
      let headers := responseHeaders (mimeType.getD (bytes "application/octet-stream")) (dec size)
      let sent := opened ++ [.acquire .fileContent, .release .file] ++ mimeCalls ++
        .acquire .responseHeaders :: sendHttpStatus 200 (readFile env size) headers ++
        killHttpConnection request ++ [.release .fileContent]
      if mimeType.isSome then ⟨sent ++ [.release .mimeType], .ret 0⟩
      else ⟨sent, .fault⟩

def serveDirectory (env : Env) (request : HttpRequest) (filePath : Bytes) : Run :=
  match env.entries with
  | none =>
    ⟨.opendir filePath :: sendHttpStatus 500 (bytes "Internal Server Error\n") none ++
      killHttpConnection request, .ret (-1)⟩
  | some entries =>
    let body := entries.getD (bytes "No files or directories found.\n")
    let headers := responseHeaders (bytes "text/html") (decInt body.length)
    ⟨.opendir filePath :: .acquire .entries :: .acquire .responseHeaders ::
      sendHttpStatus 200 body headers ++ killHttpConnection request ++ [.release .entries], .ret 0⟩

def sendError (request : HttpRequest) (statusCode : Nat) (body : Bytes) : List Call :=
  sendHttpStatus statusCode body none ++ killHttpConnection request

def servePublic (env : Env) (request : HttpRequest) (filePath : Bytes) : Run :=
  if env.isFile filePath then (serveFile env request filePath).after [.stat filePath]
  else if env.config.directoryIndexing then
    if env.isDirectory filePath then
      (serveDirectory env request filePath).after [.stat filePath, .stat filePath]
    else
      ⟨[.stat filePath, .stat filePath] ++ sendError request 404 (bytes "Not found\n"), .ret (-1)⟩
  else ⟨.stat filePath :: sendError request 403 (bytes "Forbidden\n"), .ret (-1)⟩

-- ---------------------------------------------------------------------------
-- The callback
-- ---------------------------------------------------------------------------

/-- The version and method checks: the status of the refusal, or the request
after them. -/
def checkRequest (config : HttpConfig) (request : HttpRequest) : Except Nat HttpRequest :=
  if request.version = .unknown then .error 400
  else if request.version.value > HttpVersion.http11.value then .error 505
  else
    let (standard, request) := isStandardHttpMethod request
    if !standard && !config.acceptAnyMethod then .error 501 else .ok request

def HttpServer.filePath (server : HttpServer) (request : HttpRequest) : Bytes :=
  snprintf maxSysPathLength (server.publicDir ++ bytes "/" ++ request.uriText)

def serveRoute (request : HttpRequest) (i : Nat) (route : HttpRoute) (params : StringMap) : Run :=
  if isRequestMethodAllowed route request then
    ⟨.invoke i params :: route.callback request params ++ [.release .parameterMap], .ret 0⟩
  else
    ⟨sendError request 405 (bytes "405\nMethod not allowed") ++ [.release .parameterMap], .ret (-1)⟩

def serveRequest (env : Env) (server : HttpServer) (request : HttpRequest) : Run :=
  match isRouteExists server.httpRoutes request.uriText createStringMap with
  | none => ⟨[.acquire .parameterMap], .fault⟩
  | some (some (i, route), params) =>
    (serveRoute request i route params).after [.acquire .parameterMap]
  | some (none, _) =>
    (servePublic env request (server.filePath request)).after
      [.acquire .parameterMap, .release .parameterMap]

def httpServerCallback (env : Env) (server : HttpServer) (text : Bytes) (bufferSize : Int) : Run :=
  let parsed := parseHttpRequest env text bufferSize
  match parsed.request with
  | none => ⟨parsed.calls, .ret (-1)⟩
  | some request =>
    match checkRequest env.config request with
    | .error statusCode => ⟨parsed.calls ++ rejectRequest request statusCode, .ret (-1)⟩
    | .ok request => (serveRequest env server request).after parsed.calls

end GeoNS.Http
