import GeoNS.Http.Lengths
import GeoNS.Http.Methods
import GeoNS.Http.OneAnswer

/-!
# What a client reads

Every response that the callback sends is a message that is read back: a
refusal with its text, or a page whose headers declare it. A request for a
file is answered with the file.
-/

namespace GeoNS.Http.Wire

open CString HttpMessage Response Lengths RequestLine Methods

-- ---------------------------------------------------------------------------
-- The responses
-- ---------------------------------------------------------------------------

def refusals : List Nat := [400, 403, 404, 405, 413, 431, 500, 501, 505]

inductive Sent (env : Env) : HttpResponse → Prop
  | refusal (hstatus : statusCode ∈ refusals) (body : Bytes) : Sent env (responseOf statusCode none body)
  | file (hmime : mimeType = none ∨ mimeType = env.magicFile) (size : Nat) :
    Sent env (Branch.file env mimeType size).response
  | listing (hentries : env.entries = some entries) : Sent env (Branch.listing entries).response
  | home : Sent env Branch.home.response
  | about : Sent env Branch.about.response

def sent (calls : List Call) : List HttpResponse :=
  calls.filterMap fun
    | .send response => some response
    | _ => none

def AllSent (env : Env) (calls : List Call) : Prop := ∀ response ∈ sent calls, Sent env response

@[simp] theorem sent_append (calls calls' : List Call) : sent (calls ++ calls') = sent calls ++ sent calls' :=
  List.filterMap_append

@[simp] theorem sent_nil : sent [] = [] := rfl

@[simp] theorem sent_acquire (r : Resource) (calls : List Call) : sent (.acquire r :: calls) = sent calls := rfl

@[simp] theorem sent_release (r : Resource) (calls : List Call) : sent (.release r :: calls) = sent calls := rfl

@[simp] theorem sent_stat (path : Bytes) (calls : List Call) : sent (.stat path :: calls) = sent calls := rfl

@[simp] theorem sent_fopen (path : Bytes) (calls : List Call) : sent (.fopen path :: calls) = sent calls := rfl

@[simp] theorem sent_opendir (path : Bytes) (calls : List Call) : sent (.opendir path :: calls) = sent calls := rfl

@[simp] theorem sent_recv (size : Int) (calls : List Call) : sent (.recv size :: calls) = sent calls := rfl

@[simp] theorem sent_realloc (size : Int) (calls : List Call) : sent (.realloc size :: calls) = sent calls := rfl

@[simp] theorem sent_invoke (i : Nat) (params : StringMap) (calls : List Call) :
    sent (.invoke i params :: calls) = sent calls := rfl

@[simp] theorem sent_killHttpConnection (request : HttpRequest) : sent (killHttpConnection request) = [] := by
  unfold killHttpConnection
  split <;> rfl

@[simp] theorem sent_sendHttpStatus (statusCode : Nat) (body : Bytes) (headers : Option Bytes) :
    sent (sendHttpStatus statusCode body headers) = [responseOf statusCode headers body] := by
  cases headers <;> rfl

@[simp] theorem sent_sendError (request : HttpRequest) (statusCode : Nat) (body : Bytes) :
    sent (sendError request statusCode body) = [responseOf statusCode none body] := by
  simp [sendError]

@[simp] theorem sent_rejectRequest (request : HttpRequest) (statusCode : Nat) :
    sent (rejectRequest request statusCode) = [responseOf statusCode none []] := by
  simp [rejectRequest, sendHttpStatusBodyless]

theorem allSent_of_eq (h : sent calls = [response]) (hsent : Sent env response) : AllSent env calls := by
  intro response' hmem
  rw [h] at hmem
  exact List.mem_singleton.mp hmem ▸ hsent

theorem allSent_of_nil (h : sent calls = []) : AllSent env calls := by
  intro response hmem
  simp [h] at hmem

-- ---------------------------------------------------------------------------
-- The branches
-- ---------------------------------------------------------------------------

theorem sent_getFileSize (env : Env) (filePath : Bytes) : sent (getFileSize env filePath).1 = [] := by
  unfold getFileSize
  split <;> rfl

theorem sent_getMimeType (env : Env) (filePath : Bytes) : sent (getMimeType env filePath).1 = [] := by
  unfold getMimeType
  split
  · rfl
  split
  · rfl
  split <;> rfl

theorem mimeType_cases (env : Env) (filePath : Bytes) :
    (getMimeType env filePath).2 = none ∨ (getMimeType env filePath).2 = env.magicFile := by
  unfold getMimeType
  split
  · exact .inl rfl
  split
  · exact .inl rfl
  split
  · exact .inl rfl
  · rename_i mimeType hmime
    exact .inr hmime.symm

theorem sent_serveFile (hopen : env.fopen) (hmemory : env.memalloc) (request : HttpRequest) (filePath : Bytes) :
    sent (serveFile env request filePath).calls =
      [(Branch.file env (getMimeType env filePath).2 (getFileSize env filePath).2).response] := by
  have hsize := sent_getFileSize env filePath
  have hmime := sent_getMimeType env filePath
  have hbranch : responseOf 200 (responseHeaders
      ((getMimeType env filePath).2.getD (bytes "application/octet-stream"))
        (dec (getFileSize env filePath).2)) (readFile env (getFileSize env filePath).2) =
      (Branch.file env (getMimeType env filePath).2 (getFileSize env filePath).2).response := by
    rw [Branch.response, Branch.calls, block_headerCalls]
    rfl
  simp only [serveFile, hopen, hmemory, Bool.not_true, Bool.false_eq_true, if_false]
  split <;>
    simp [hsize, hmime, hbranch]

theorem allSent_serveFile (env : Env) (request : HttpRequest) (filePath : Bytes) :
    AllSent env (serveFile env request filePath).calls := by
  have hsize := sent_getFileSize env filePath
  cases hopen : env.fopen with
  | false =>
    refine allSent_of_nil ?_
    simp [serveFile, hopen]
  | true =>
    cases hmemory : env.memalloc with
    | false =>
      refine allSent_of_nil ?_
      simp [serveFile, hopen, hmemory, hsize]
    | true =>
      exact allSent_of_eq (sent_serveFile hopen hmemory request filePath)
        (.file (mimeType_cases env filePath) _)

theorem allSent_serveDirectory (env : Env) (request : HttpRequest) (filePath : Bytes) :
    AllSent env (serveDirectory env request filePath).calls := by
  unfold serveDirectory
  cases hentries : env.entries with
  | none =>
    refine allSent_of_eq ?_ (.refusal (show 500 ∈ refusals by decide) (bytes "Internal Server Error\n"))
    simp
  | some entries =>
    have hlisting : Sent env (Branch.listing entries).response := .listing hentries
    have hbody : (Branch.listing entries).body = entries.getD (bytes "No files or directories found.\n") := rfl
    have htype : (Branch.listing entries).contentType = bytes "text/html" := rfl
    have hlength : (Branch.listing entries).contentLength = decInt (Branch.listing entries).body.length := rfl
    rw [Branch.response, Branch.calls, block_headerCalls, hlength, htype, hbody] at hlisting
    refine allSent_of_eq ?_ hlisting
    simp

theorem allSent_servePublic (env : Env) (request : HttpRequest) (filePath : Bytes) :
    AllSent env (servePublic env request filePath).calls := by
  unfold servePublic
  split
  · simpa [AllSent] using allSent_serveFile env request filePath
  split
  · split
    · simpa [AllSent] using allSent_serveDirectory env request filePath
    · refine allSent_of_eq ?_ (.refusal (show 404 ∈ refusals by decide) (bytes "Not found\n"))
      simp
  · refine allSent_of_eq ?_ (.refusal (show 403 ∈ refusals by decide) (bytes "Forbidden\n"))
    simp

theorem allSent_serveRoute (request : HttpRequest) (i : Nat) {route : HttpRoute}
    (hroute : ∀ request params, AllSent env (route.callback request params)) (params : StringMap) :
    AllSent env (serveRoute request i route params).calls := by
  unfold serveRoute
  split
  · simpa [AllSent] using hroute request params
  · refine allSent_of_eq ?_ (.refusal (show 405 ∈ refusals by decide) (bytes "405\nMethod not allowed"))
    simp

-- ---------------------------------------------------------------------------
-- The callback
-- ---------------------------------------------------------------------------

theorem checkRequest_error (h : checkRequest config request = .error statusCode) : statusCode ∈ refusals := by
  unfold checkRequest at h
  split at h
  · cases h
    decide
  split at h
  · cases h
    decide
  dsimp only at h
  split at h
  · cases h
    decide
  · contradiction

theorem allSent_receiveRequest (env : Env) (request : HttpRequest) (n : Int) :
    AllSent env (receiveRequest env request n).calls := by
  unfold receiveRequest
  split
  · exact allSent_of_nil rfl
  dsimp only
  split
  · exact allSent_of_nil rfl
  split
  · exact allSent_of_eq (by simp) (.refusal (show 413 ∈ refusals by decide) [])
  split
  · exact allSent_of_nil rfl
  · exact allSent_of_eq (by simp) (.refusal (show 500 ∈ refusals by decide) [])

theorem allSent_parse (env : Env) (text : Bytes) (n : Int) : AllSent env (parseHttpRequest env text n).calls := by
  unfold parseHttpRequest
  dsimp only
  split
  · exact allSent_of_eq (by simp) (.refusal (show 431 ∈ refusals by decide) [])
  · simpa [AllSent] using allSent_receiveRequest env _ n

theorem sent_parse (h : (parseHttpRequest env text n).request = some request) :
    sent (parseHttpRequest env text n).calls = [] := by
  obtain ⟨calls, heq, hcalls⟩ := parseHttpRequest_calls h
  rw [heq, sent_acquire, sent_acquire]
  refine List.filterMap_eq_nil_iff.mpr fun call hcall => ?_
  have hreceive := hcalls call hcall
  cases call <;> first | rfl | contradiction

theorem allSent_serveRequest (env : Env) (server : HttpServer) (request : HttpRequest)
    (hroutes : ∀ route ∈ server.httpRoutes, ∀ request params, AllSent env (route.callback request params)) :
    AllSent env (serveRequest env server request).calls := by
  unfold serveRequest
  split
  · exact allSent_of_nil rfl
  · rename_i i route params hfound
    have hroute := hroutes route (isRouteExists_mem hfound)
    simpa [AllSent] using allSent_serveRoute request i hroute params
  · simpa [AllSent] using allSent_servePublic env request (server.filePath request)

theorem allSent_callback (env : Env) (server : HttpServer) (text : Bytes) (n : Int)
    (hroutes : ∀ route ∈ server.httpRoutes, ∀ request params, AllSent env (route.callback request params)) :
    AllSent env (httpServerCallback env server text n).calls := by
  unfold httpServerCallback
  dsimp only
  cases hparsed : (parseHttpRequest env text n).request with
  | none => exact allSent_parse env text n
  | some request =>
    have hsilent := sent_parse hparsed
    dsimp only
    cases hchecked : checkRequest env.config request with
    | error statusCode =>
      exact allSent_of_eq (by simp [hsilent]) (.refusal (checkRequest_error hchecked) [])
    | ok checked => simpa [AllSent, hsilent] using allSent_serveRequest env server checked hroutes

-- ---------------------------------------------------------------------------
-- Reading a response
-- ---------------------------------------------------------------------------

/-- The headers of a page: its type, its length, and that the connection ends
with it. -/
def pageHeaders (contentType body : Bytes) : List (Bytes × Bytes) :=
  [(bytes "Content-Type", contentType), (bytes "Content-Length", dec body.length),
    (bytes "Connection", bytes "Close")]

theorem decode_response (hlow : 100 ≤ statusCode) (hhigh : statusCode < 1000)
    (hclean : ∀ call ∈ calls, Clean (HeaderCall.name call, HeaderCall.value call)) (body : Bytes) :
    decode (sendHttpResponse (responseOf statusCode (block calls) body)) =
      some (messageOf statusCode (added calls) body) := by
  rw [sendHttpResponse_eq hlow hhigh, ← encode_eq]
  have hversion : (32 : UInt8) ∉ bytes "HTTP/1.1" ∧ (13 : UInt8) ∉ bytes "HTTP/1.1" := by decide
  refine decode_encode hversion ⟨hlow, hhigh⟩ (cr_notMem_getReasonPhrase statusCode) ?_
  refine List.forall_mem_cons.mpr ⟨by decide +kernel, fun header hheader => ?_⟩
  obtain ⟨call, hcall, rfl⟩ := List.mem_map.mp hheader
  exact hclean call (List.mem_filter.mp hcall).1

theorem decode_refusal (hstatus : statusCode ∈ refusals) (body : Bytes) :
    decode (sendHttpResponse (responseOf statusCode none body)) = some (messageOf statusCode [] body) := by
  have hrange : ∀ statusCode ∈ refusals, 100 ≤ statusCode ∧ statusCode < 1000 := by decide
  obtain ⟨hlow, hhigh⟩ := hrange statusCode hstatus
  have hnone : ∀ call ∈ ([] : List HeaderCall), Clean (call.name, call.value) := by simp
  exact decode_response hlow hhigh hnone body

theorem cr_notMem_dec (n : Nat) : (13 : UInt8) ∉ dec n := fun h => absurd (isdigit_of_mem_dec h) (by decide)

theorem decode_page {b : Branch} (htype : (13 : UInt8) ∉ b.contentType) (hprints : b.Prints) :
    decode (sendHttpResponse b.response) = some (messageOf 200 (pageHeaders b.contentType b.body) b.body) := by
  have hlength := (contentLength_eq_iff b).mpr hprints
  have hadded : added (b.calls enough) = pageHeaders b.contentType b.body := by
    rw [Branch.calls, hlength]
    rfl
  rw [← hadded]
  refine decode_response (by decide) (by decide) ?_ b.body
  rw [Branch.calls, hlength]
  simp only [headerCalls, List.forall_mem_cons]
  have hname : (58 : UInt8) ∉ bytes "Content-Type" ∧ (13 : UInt8) ∉ bytes "Content-Type" := by decide
  have hname' : (58 : UInt8) ∉ bytes "Content-Length" ∧ (13 : UInt8) ∉ bytes "Content-Length" := by decide
  exact ⟨⟨hname.1, hname.2, htype⟩, ⟨hname'.1, hname'.2, cr_notMem_dec _⟩, by decide, by simp⟩

/-- What is read of a response: a refusal and its text, or a page under its
headers. -/
inductive Read (response : HttpResponse) : Prop
  | refusal (hstatus : response.statusCode ∈ refusals)
    (hread : decode (sendHttpResponse response) = some (messageOf response.statusCode [] response.body))
  | page (contentType : Bytes) (hstatus : response.statusCode = 200)
    (hread : decode (sendHttpResponse response) =
      some (messageOf 200 (pageHeaders contentType response.body) response.body))

/-- The types that libmagic gives are single lines without a `%`, as they are passed
for a format, and a listing has a length that `%d` prints. -/
structure Plain (env : Env) : Prop where
  mimeType : ∀ mimeType, env.magicFile = some mimeType → (13 : UInt8) ∉ mimeType ∧ (37 : UInt8) ∉ mimeType
  listing : ∀ listing, env.entries = some (some listing) → listing.length < 2 ^ 31

theorem Sent.read (hplain : Plain env) (h : Sent env response) : Read response := by
  have hhtml : (13 : UInt8) ∉ bytes "text/html" := by decide
  cases h with
  | refusal hstatus body => exact .refusal hstatus (decode_refusal hstatus body)
  | @file mimeType hmime size =>
    refine .page _ rfl (decode_page ?_ trivial)
    have hdefault : (13 : UInt8) ∉ bytes "application/octet-stream" := by decide
    cases mimeType with
    | none => exact hdefault
    | some mimeType => exact (hplain.mimeType mimeType (hmime.resolve_left (by simp)).symm).1
  | @listing entries hentries =>
    refine .page _ rfl (decode_page hhtml ?_)
    cases entries with
    | none =>
      have hempty : (bytes "No files or directories found.\n").length < 2 ^ 31 := by decide
      exact hempty
    | some listing => exact hplain.listing listing hentries
  | home => exact .page _ rfl (decode_page hhtml trivial)
  | about => exact .page _ rfl (decode_page hhtml trivial)

theorem allSent_sendPage (b : Branch) (htype : b.contentType = bytes "text/html")
    (hlength : b.contentLength = decInt b.body.length) (hbranch : Sent env b.response) (request : HttpRequest) :
    AllSent env (sendPage b.body request) := by
  rw [Branch.response, Branch.calls, block_headerCalls, htype, hlength] at hbranch
  exact allSent_of_eq (by simp [sendPage]) hbranch

def builtinServer : HttpServer := ⟨bytes "/srv/web", setupGeonsHttpRouter []⟩

theorem allSent_builtin (env : Env) : ∀ route ∈ builtinServer.httpRoutes, ∀ request params,
    AllSent env (route.callback request params) := by
  have hhome (request : HttpRequest) (params : StringMap) : AllSent env (callbackHome request params) :=
    allSent_sendPage .home rfl rfl .home request
  have habout (request : HttpRequest) (params : StringMap) : AllSent env (callbackAbout request params) :=
    allSent_sendPage .about rfl rfl .about request
  have hroutes : builtinServer.httpRoutes.map (·.callback) = [callbackHome, callbackAbout, test] := rfl
  intro route hroute request params
  have hcallback : route.callback ∈ [callbackHome, callbackAbout, test] :=
    hroutes ▸ List.mem_map_of_mem hroute
  simp only [List.mem_cons, List.not_mem_nil, or_false] at hcallback
  rcases hcallback with heq | heq | heq <;> rw [heq]
  · exact hhome request params
  · exact habout request params
  · unfold test
    split
    · exact habout request params
    · exact habout request params

def aboutRequest : Bytes := bytes "GET /about HTTP/1.1\r\n\r\n"

/-- The file at a path can be read, has not changed its size, and has a type. -/
structure Readable (env : Env) (filePath mimeType : Bytes) : Prop where
  isFile : env.isFile filePath
  fopen : env.fopen
  size : env.fileSize = some env.fileContent.length
  memalloc : env.memalloc
  magicOpen : env.magicOpen
  magicLoad : env.magicLoad
  magicFile : env.magicFile = some mimeType
  line : (13 : UInt8) ∉ mimeType
  literal : (37 : UInt8) ∉ mimeType

theorem Readable.sent_servePublic (h : Readable env filePath mimeType) (request : HttpRequest) :
    sent (servePublic env request filePath).calls =
        [(Branch.file env (some mimeType) env.fileContent.length).response] ∧
      (servePublic env request filePath).result = .ret 0 := by
  have hmime : (getMimeType env filePath).2 = some mimeType := by
    simp [getMimeType, h.magicOpen, h.magicLoad, h.magicFile]
  have hsize : (getFileSize env filePath).2 = env.fileContent.length := by simp [getFileSize, h.size]
  have hserve := sent_serveFile h.fopen h.memalloc request filePath
  rw [hmime, hsize] at hserve
  unfold servePublic
  rw [if_pos h.isFile, Run.after_calls, Run.after_result, List.singleton_append, sent_stat]
  refine ⟨hserve, ?_⟩
  simp [serveFile, h.fopen, h.memalloc, hmime]

theorem body_file (env : Env) (mimeType : Option Bytes) :
    (Branch.file env mimeType env.fileContent.length).body = env.fileContent := by
  simp [Branch.body, readFile]

theorem uriText_upperMethod {request : HttpRequest}
    (hname : request.method.name.length = maxHttpMethodLength)
    (huri : request.uri.length = maxHttpUriLength) (hzero : (0 : UInt8) ∈ request.method.name) :
    request.upperMethod.uriText = request.uriText := by
  have hupper (t : Bytes) : toUpperString (request.method.name ++ t) =
      toUpperString request.method.name ++ t := by
    rw [toUpperString, toUpperString, cstr_append_of_mem hzero,
      List.drop_append_of_le_length (length_cstr_le _), List.append_assoc]
  have hlength : (toUpperString request.method.name).length = maxHttpMethodLength := by
    rw [length_toUpperString, hname]
  have hkept : request.upperMethod.uri = request.uri := by
    simp only [HttpRequest.upperMethod, HttpRequest.nameMemory, hupper]
    rw [← hlength, List.drop_length_add_append, List.drop_one, List.tail_cons, List.take_left' huri]
  rw [HttpRequest.uriText, hkept, HttpRequest.uriText]

theorem checkRequest_parts (parts : Parts) (hfilled : Filled parts.line request)
    (hmethod : parts.method.map toupper ∈ commonNames)
    (hversion : parts.version.value ≤ HttpVersion.http11.value) (config : HttpConfig) :
    ∃ checked, checkRequest config request = .ok checked ∧ checked.uriText = parts.uri := by
  have hstored := stored_of_filled parts hfilled
  have hname := hfilled.name
  have huri := hfilled.uri
  simp only [strtok_line, List.getElem?_cons_zero, List.getElem?_cons_succ, Option.elim_some] at hname huri
  have hzero : (0 : UInt8) ∉ parts.method := not_mem_method parts (by decide)
  have hpast : PastVersion config request :=
    pastVersion_of_le (hstored.version ▸ parts.known) (hstored.version ▸ hversion) config
  have hstandard : ∀ name ∈ commonNames, begins (standardMethods.map bytes) name := by decide +kernel
  refine ⟨request.upperMethod, ?_, ?_⟩
  · rw [checkRequest_past hpast, isStandardHttpMethod_token hzero hname, hstandard _ hmethod]
    rfl
  · rw [uriText_upperMethod (by rw [hname, length_toUpperString, length_strncpy])
      (by rw [huri, length_strncpy]) hstored.method_ends, hstored.uri]

theorem known_http11 : HttpVersion.http11 ≠ .unknown := by decide

def pageParts : Parts where
  method := bytes "get"
  uri := bytes "/docs/page.html"
  version := .http11
  method_ne_nil := by decide +kernel
  method_lt := by decide +kernel
  letters := by decide +kernel
  uri_ne_nil := by decide +kernel
  uri_lt := by decide +kernel
  uri_clean := by decide +kernel
  known := known_http11

def pageEnv : Env := { Env.ok with fileSize := some 5, fileContent := bytes "<h1>\n" }

end GeoNS.Http.Wire
