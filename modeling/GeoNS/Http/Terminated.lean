import GeoNS.Http.Framing
import GeoNS.Http.Headers
import GeoNS.Http.Methods

/-!
# Where the strings of a request end

The request line, the name of the method and the URI are copied into arrays and
read as strings. The arrays that are read are listed in the order of the code,
and the requests that find a NUL in every one of them are told by the lengths of
the parts of their first line.
-/

namespace GeoNS.Http.Terminated

open CString Framing Headers Methods RequestLine

-- ---------------------------------------------------------------------------
-- The arrays that are read
-- ---------------------------------------------------------------------------

def methodToken (line : Bytes) : Bytes := (strtok 32 line)[0]?.getD []

def uriToken (line : Bytes) : Bytes := (strtok 32 line)[1]?.getD []

def headersRefused (env : Env) (text : Bytes) : Bool :=
  (requestOffsets env text).headersSize > baseHttpRequestHeaderSize && !env.config.trimLargeHeaders

/-- In the parser: `request_line`, and the name of the method where there is one,
which `is_body_required` puts in upper case. -/
def parserReads (env : Env) (text : Bytes) : List Bytes :=
  if headersRefused env text then []
  else
    match strtok 10 text with
    | [] => []
    | line :: _ => strncpy requestLineSize line ::
      ((strtok 32 (requestLine env line))[0]?.map (strncpy maxHttpMethodLength)).toList

/-- Behind the parser: the name in `is_standard_http_method`, the URI in
`is_route_exists`, and for a route the name in `is_request_method_allowed`. -/
def callbackReads (config : HttpConfig) (server : HttpServer) (request : HttpRequest) : List Bytes :=
  if request.version = .unknown ∨ request.version.value > HttpVersion.http11.value then []
  else
    request.method.name ::
      match checkRequest config request with
      | .error _ => []
      | .ok checked =>
        match isRouteExists server.httpRoutes checked.uriText createStringMap with
        | some (some _, _) => [checked.uri, checked.method.name]
        | _ => [checked.uri]

def stringReads (env : Env) (server : HttpServer) (text : Bytes) (n : Int) : List Bytes :=
  parserReads env text ++
    match (parseHttpRequest env text n).request with
    | none => []
    | some request => callbackReads env.config server request

/-- Every string that is read ends in its array. -/
def Bounded (env : Env) (server : HttpServer) (text : Bytes) (n : Int) : Prop :=
  ∀ array ∈ stringReads env server text n, (0 : UInt8) ∈ array

-- ---------------------------------------------------------------------------
-- The requests that are refused
-- ---------------------------------------------------------------------------

def headersOf (env : Env) (text : Bytes) : Bytes :=
  (headerSection env text).take (headerLimit env text)

def bodyRefused (env : Env) (text : Bytes) : Prop :=
  let length := contentLength (headersOf env text)
  length ≠ 0 ∧
    (Int.bmod ((requestOffsets env text).headersOffset + length) (2 ^ 64) > maxHttpRequestSize ∧
      env.config.trimLargeBody = false ∨ env.realloc = false)

inductive Refused (env : Env) (text line : Bytes) : Prop
  | version (h : ∃ token ∈ (strtok 32 line)[2]?, begins acceptedVersions token = false)
  | method (h : begins (standardMethods.map bytes) ((methodToken line).map toupper) = false)
      (hconfig : env.config.acceptAnyMethod = false)
  | body (hline : strtok 32 line ≠ [])
      (h : begins (bodyLessMethods.map bytes) ((methodToken line).map toupper) = false)
      (hbody : bodyRefused env text)

/-- The first line, its method and the URI that is looked up leave room for a NUL. -/
def Fits (env : Env) (text : Bytes) : Prop :=
  headersRefused env text = true ∨ (firstLine text).length < requestLineSize ∧
    (methodToken (firstLine text)).length < maxHttpMethodLength ∧
    ((uriToken (firstLine text)).length < maxHttpUriLength ∨ Refused env text (firstLine text))

-- ---------------------------------------------------------------------------
-- The fields of a short line
-- ---------------------------------------------------------------------------

theorem zero_mem_strncpy_iff (hsrc : (0 : UInt8) ∉ src) :
    (0 : UInt8) ∈ strncpy n src ↔ src.length < n := by
  constructor
  · intro h
    by_contra hle
    rw [strncpy, List.take_append_of_le_length (Nat.le_of_not_lt hle)] at h
    exact hsrc (List.mem_of_mem_take h)
  · exact zero_mem_strncpy

theorem zero_notMem_firstLine {text : Bytes} (h : (0 : UInt8) ∉ text) :
    (0 : UInt8) ∉ firstLine text := by
  unfold firstLine
  cases hlines : strtok 10 text with
  | nil => exact List.not_mem_nil
  | cons line lines =>
    intro hmem
    exact h (mem_of_token (by rw [hlines]; exact List.mem_cons_self) hmem)

theorem zero_notMem_token {line : Bytes} (h : (0 : UInt8) ∉ line) (i : Nat) :
    (0 : UInt8) ∉ (strtok 32 line)[i]?.getD [] := by
  cases htoken : (strtok 32 line)[i]? with
  | none => exact List.not_mem_nil
  | some token => exact fun hmem => h (mem_of_token (List.mem_of_getElem? htoken) hmem)

/-- A request whose strings are the parts of a line. -/
structure Holds (line : Bytes) (request : HttpRequest) : Prop where
  name : request.method.name = strncpy maxHttpMethodLength ((methodToken line).map toupper)
  uri : request.uri = strncpy maxHttpUriLength (uriToken line)

theorem holds_of_filled (hzero : (0 : UInt8) ∉ line)
    (hmethod : (methodToken line).length < maxHttpMethodLength) (h : Filled line request) :
    Holds line request := by
  have hclean := zero_notMem_token hzero 0
  refine ⟨?_, ?_⟩
  · rw [h.name, methodToken, ← toUpperString_strncpy hclean hmethod]
    cases (strtok 32 line)[0]? with
    | none =>
      rw [Option.elim_none, Option.getD_none, toUpperString_strncpy List.not_mem_nil (by decide),
        List.map_nil, strncpy_nil]
    | some name => rfl
  · rw [h.uri, uriToken]
    cases (strtok 32 line)[1]? with
    | none => rw [Option.elim_none, Option.getD_none, strncpy_nil]
    | some uri => rfl

variable {line : Bytes} {request : HttpRequest}

theorem methodName_of_holds (hzero : (0 : UInt8) ∉ line)
    (hmethod : (methodToken line).length < maxHttpMethodLength) (h : Holds line request) :
    request.methodName = (methodToken line).map toupper := by
  rw [HttpRequest.methodName, HttpRequest.nameMemory, h.name]
  refine cstr_strncpy_append (zero_notMem_map_toupper (zero_notMem_token hzero 0)) ?_ _
  rwa [List.length_map]

theorem toUpperString_eq_self {mem : Bytes} (h : (cstr mem).map toupper = cstr mem) :
    toUpperString mem = mem := by
  rw [toUpperString, h]
  exact (List.prefix_iff_eq_append.mp (List.takeWhile_prefix _))

theorem upperMethod_of_holds (hzero : (0 : UInt8) ∉ line)
    (hmethod : (methodToken line).length < maxHttpMethodLength) (h : Holds line request) :
    request.upperMethod = request := by
  have hupper : toUpperString request.nameMemory = request.nameMemory := by
    have hname := methodName_of_holds hzero hmethod h
    rw [HttpRequest.methodName] at hname
    refine toUpperString_eq_self ?_
    rw [hname, map_toupper_idem]
  have hlength : request.method.name.length = maxHttpMethodLength := by rw [h.name, length_strncpy]
  have hlength' : request.uri.length = maxHttpUriLength := by rw [h.uri, length_strncpy]
  have htake : request.nameMemory.take maxHttpMethodLength = request.method.name := by
    rw [HttpRequest.nameMemory, List.take_left' hlength]
  have hdrop : (request.nameMemory.drop (maxHttpMethodLength + 1)).take maxHttpUriLength =
      request.uri := by
    rw [HttpRequest.nameMemory, ← hlength, List.drop_length_add_append, List.drop_one,
      List.tail_cons, List.take_left' hlength']
  unfold HttpRequest.upperMethod
  simp only [hupper, htake, hdrop]

-- ---------------------------------------------------------------------------
-- The requests that get to the routes
-- ---------------------------------------------------------------------------

theorem isBodyRequired_of_line (hzero : (0 : UInt8) ∉ line) (request : HttpRequest) :
    (parseRequestLine request line).method.isBodyRequired =
      if strtok 32 line = [] then request.method.isBodyRequired
      else !begins (bodyLessMethods.map bytes) ((methodToken line).map toupper) := by
  have hclean := zero_notMem_token hzero 0
  unfold methodToken parseRequestLine
  split
  case h_1 hnil => rw [hnil, if_pos rfl]
  case h_2 name rest hcons =>
    rw [hcons] at hclean ⊢
    rw [if_neg (List.cons_ne_nil _ _)]
    let named : HttpRequest :=
      { request with method := { request.method with name := strncpy maxHttpMethodLength name } }
    have hname : named.method.name = strncpy maxHttpMethodLength name := rfl
    have hrequired := isBodyRequired_token hclean hname
    dsimp only
    split
    · exact hrequired
    · split
      · exact hrequired
      · exact hrequired

theorem receiveRequest_eq_none_iff (env : Env) (head : HttpRequest) (n : Int) :
    (receiveRequest env head n).request = none ↔
      head.method.isBodyRequired = true ∧ contentLength (head.headers.getD []) ≠ 0 ∧
        (Int.bmod (head.headersOffset + contentLength (head.headers.getD [])) (2 ^ 64) >
            maxHttpRequestSize ∧ env.config.trimLargeBody = false ∨ env.realloc = false) := by
  unfold receiveRequest
  split
  case isTrue h => simp_all
  case isFalse h =>
    dsimp only
    split
    · simp_all
    · split
      · simp_all
      · split <;> simp_all

theorem checkRequest_of_holds (config : HttpConfig) (hzero : (0 : UInt8) ∉ line)
    (hmethod : (methodToken line).length < maxHttpMethodLength) (h : Holds line request) :
    (∀ checked, checkRequest config request = .ok checked → checked = request) ∧
      ((∃ checked, checkRequest config request = .ok checked) ↔ PastVersion config request ∧
        (begins (standardMethods.map bytes) ((methodToken line).map toupper) = true ∨
          config.acceptAnyMethod = true)) := by
  have hclean := zero_notMem_token hzero 0
  have hstandard : (isStandardHttpMethod request).1 =
      begins (standardMethods.map bytes) ((methodToken line).map toupper) := by
    refine isStandardHttpMethod_token hclean ?_
    rw [h.name]
    exact (toUpperString_strncpy hclean hmethod).symm
  by_cases hpast : PastVersion config request
  · rw [checkRequest_past hpast, hstandard, upperMethod_of_holds hzero hmethod h, and_iff_right hpast]
    cases begins (standardMethods.map bytes) ((methodToken line).map toupper) <;>
      cases config.acceptAnyMethod <;> simp
  · have hnone : ∀ checked, checkRequest config request ≠ .ok checked := by
      rintro checked hchecked
      exact hpast (by simp [PastVersion, hchecked])
    exact ⟨fun checked hchecked => absurd hchecked (hnone checked),
      iff_of_false (fun ⟨checked, hchecked⟩ => hnone checked hchecked) fun h => hpast h.1⟩

theorem bounded_callbackReads_iff (config : HttpConfig) (server : HttpServer)
    (hzero : (0 : UInt8) ∉ line) (hmethod : (methodToken line).length < maxHttpMethodLength)
    (h : Holds line request) :
    (∀ array ∈ callbackReads config server request, (0 : UInt8) ∈ array) ↔
      (uriToken line).length < maxHttpUriLength ∨
        ¬ ∃ checked, checkRequest config request = .ok checked := by
  have hname : (0 : UInt8) ∈ request.method.name := by
    rw [h.name]
    exact zero_mem_strncpy (by rwa [List.length_map])
  have huri : (0 : UInt8) ∈ request.uri ↔ (uriToken line).length < maxHttpUriLength := by
    rw [h.uri]
    exact zero_mem_strncpy_iff (zero_notMem_token hzero 1)
  have hsame := (checkRequest_of_holds config hzero hmethod h).1
  rw [← huri]
  unfold callbackReads
  split
  case isTrue hversion =>
    refine iff_of_true (by simp) (.inr ?_)
    rintro ⟨checked, hchecked⟩
    rcases hversion with hunknown | hlater
    · rw [checkRequest_unknown hunknown] at hchecked
      contradiction
    · by_cases hunknown : request.version = .unknown
      · rw [checkRequest_unknown hunknown] at hchecked
        contradiction
      · rw [checkRequest_later hunknown hlater] at hchecked
        contradiction
  case isFalse =>
    cases hcheck : checkRequest config request with
    | error code => simp [hname]
    | ok checked =>
      rw [hsame checked hcheck]
      dsimp only
      split <;> simp [hname]

theorem parseHttpRequest_kept {env : Env} {text : Bytes} (h : headersRefused env text = false)
    (n : Int) : (parseHttpRequest env text n).request =
      (receiveRequest env (requestHead env text (requestOffsets env text)) n).request := by
  unfold parseHttpRequest
  dsimp only
  rw [if_neg]
  rintro ⟨hlarge, htrim⟩
  simp [headersRefused, hlarge, htrim] at h

theorem parseHttpRequest_refused {env : Env} {text : Bytes} (h : headersRefused env text = true)
    (n : Int) : (parseHttpRequest env text n).request = none := by
  unfold parseHttpRequest
  dsimp only
  rw [if_pos]
  simpa [headersRefused] using h

theorem parseHttpRequest_eq_none_iff (env : Env) {text : Bytes} (hzero : (0 : UInt8) ∉ text) (n : Int)
    (hheaders : headersRefused env text = false) (hline : (firstLine text).length < requestLineSize) :
    (parseHttpRequest env text n).request = none ↔ strtok 32 (firstLine text) ≠ [] ∧
      begins (bodyLessMethods.map bytes) ((methodToken (firstLine text)).map toupper) = false ∧
      bodyRefused env text := by
  have hclean := zero_notMem_firstLine hzero
  have hrequired : (requestHead env text (requestOffsets env text)).method.isBodyRequired = true ↔
      strtok 32 (firstLine text) ≠ [] ∧
        begins (bodyLessMethods.map bytes) ((methodToken (firstLine text)).map toupper) = false := by
    rw [requestHead_eq, requestLine_eq env hclean hline, isBodyRequired_of_line hclean]
    split
    case isTrue hnil => simp [hnil, requestOffsets, HttpRequest.empty]
    case isFalse hne => simp [hne]
  rw [parseHttpRequest_kept hheaders, receiveRequest_eq_none_iff, hrequired,
    requestHead_headersOffset, requestHead_headers_eq, Option.getD_some]
  exact and_assoc

theorem refused_iff (env : Env) {text : Bytes} (hzero : (0 : UInt8) ∉ text) (n : Int)
    (hheaders : headersRefused env text = false) (hline : (firstLine text).length < requestLineSize)
    (hmethod : (methodToken (firstLine text)).length < maxHttpMethodLength) :
    Refused env text (firstLine text) ↔ ∀ request, (parseHttpRequest env text n).request = some request →
      ¬ ∃ checked, checkRequest env.config request = .ok checked := by
  have hclean := zero_notMem_firstLine hzero
  have hnone := parseHttpRequest_eq_none_iff env hzero n hheaders hline
  cases hparsed : (parseHttpRequest env text n).request with
  | none =>
    obtain ⟨hne, hbegins, hbody⟩ := hnone.mp hparsed
    refine iff_of_true (.body hne hbegins hbody) fun request hrequest => ?_
    contradiction
  | some request =>
    have hfilled := filled_of_parse hparsed
    rw [requestLine_eq env hclean hline] at hfilled
    have hholds := holds_of_filled hclean hmethod hfilled
    have hcheck := (checkRequest_of_holds env.config hclean hmethod hholds).2
    have hpast := pastVersion_iff hfilled env.config
    simp only [Option.some.injEq, forall_eq', hcheck, hpast]
    constructor
    · rintro (⟨token, htoken, hnot⟩ | ⟨hstandard, hany⟩ | ⟨hne, hbegins, hbody⟩) ⟨hversion, hok⟩
      · rw [hversion token htoken] at hnot
        contradiction
      · simp [hstandard, hany] at hok
      · rw [hnone.mpr ⟨hne, hbegins, hbody⟩] at hparsed
        contradiction
    · intro h
      by_cases hversion : ∀ token ∈ (strtok 32 (firstLine text))[2]?, begins acceptedVersions token
      · have hnot : ¬ _ := fun hok => h ⟨hversion, hok⟩
        simp only [not_or, Bool.not_eq_true] at hnot
        exact .method hnot.1 hnot.2
      · push Not at hversion
        exact .version (by simpa using hversion)

/-- The arrays of the parser end in themselves exactly if the line and its method
are short. -/
theorem bounded_parserReads_iff (env : Env) {text : Bytes} (hzero : (0 : UInt8) ∉ text)
    (hheaders : headersRefused env text = false) :
    (∀ array ∈ parserReads env text, (0 : UInt8) ∈ array) ↔
      (firstLine text).length < requestLineSize ∧
        (methodToken (firstLine text)).length < maxHttpMethodLength := by
  have hclean := zero_notMem_firstLine hzero
  rw [parserReads, if_neg (by simp [hheaders])]
  unfold firstLine at hclean ⊢
  unfold methodToken
  cases hlines : strtok 10 text with
  | nil =>
    rw [List.headD_nil, strtok_nil]
    exact iff_of_true (by simp) ⟨by decide, by decide⟩
  | cons line lines =>
    rw [hlines, List.headD_cons] at hclean
    dsimp only [List.headD_cons]
    rw [List.forall_mem_cons, zero_mem_strncpy_iff hclean]
    refine and_congr_right fun hline => ?_
    rw [requestLine_eq env hclean hline]
    have htoken := zero_notMem_token hclean 0
    cases hname : (strtok 32 line)[0]? with
    | none => exact iff_of_true (by simp) (by decide)
    | some name =>
      rw [hname, Option.getD_some] at htoken
      simpa using zero_mem_strncpy_iff htoken

/-- Every string ends in its array exactly if the parts of the first line fit. -/
theorem bounded_iff_fits (env : Env) (server : HttpServer) {text : Bytes} (hzero : (0 : UInt8) ∉ text)
    (n : Int) : Bounded env server text n ↔ Fits env text := by
  unfold Bounded stringReads Fits
  cases hheaders : headersRefused env text with
  | true =>
    refine iff_of_true ?_ (.inl rfl)
    rw [parseHttpRequest_refused hheaders, parserReads, if_pos hheaders]
    simp
  | false =>
    rw [or_iff_right Bool.false_ne_true, List.forall_mem_append,
      bounded_parserReads_iff env hzero hheaders, and_assoc]
    refine and_congr_right fun hline => and_congr_right fun hmethod => ?_
    have hclean := zero_notMem_firstLine hzero
    rw [refused_iff env hzero n hheaders hline hmethod]
    cases hparsed : (parseHttpRequest env text n).request with
    | none => simp
    | some request =>
      have hfilled := filled_of_parse hparsed
      rw [requestLine_eq env hclean hline] at hfilled
      have hholds := holds_of_filled hclean hmethod hfilled
      rw [bounded_callbackReads_iff env.config server hclean hmethod hholds]
      simp

-- ---------------------------------------------------------------------------
-- A method that fills its array
-- ---------------------------------------------------------------------------

def shortText : Bytes := bytes "GET /nodes HTTP/1.1\r\n\r\n"

def longMethodText : Bytes := bytes "GETGETGETGETGETX / HTTP/1.1\r\n\r\n"

theorem bounded_shortText : Bounded .ok sampleRouter shortText 23 :=
  (bounded_iff_fits .ok sampleRouter (by decide) 23).mpr
    (.inr ⟨by decide +kernel, by decide +kernel, .inl (by decide +kernel)⟩)

/-- The name fills its array, and it is read in the parser and behind it. -/
theorem not_bounded_longMethodText :
    (0 : UInt8) ∉ longMethodText ∧ (strstr longMethodText (bytes "\r\n\r\n")).isSome ∧
      ¬ Bounded .ok sampleRouter longMethodText 31 ∧
      (parseHttpRequest .ok longMethodText 31).request.map (·.method.name) =
        some (bytes "GETGETGETGETGETX") := by
  refine ⟨by decide, by decide +kernel, fun hbounded => ?_, by decide +kernel⟩
  have hread : bytes "GETGETGETGETGETX" ∈ stringReads .ok sampleRouter longMethodText 31 := by
    decide +kernel
  exact absurd (hbounded _ hread) (by decide)

end GeoNS.Http.Terminated
