import GeoNS.Tokens
import GeoNS.Http.OneAnswer

/-!
# The request line

The line is copied into an array, divided at its spaces, and the parts are
copied into the fields of the request. A line that was written from a method, a
URI and a version is read back; which lines get past the version checks is told
by the parts of the array.
-/

namespace GeoNS.Http.RequestLine

open CString

-- ---------------------------------------------------------------------------
-- Upper case in an array
-- ---------------------------------------------------------------------------

theorem toUpperString_append (s t : Bytes) :
    toUpperString (s ++ 0 :: t) = toUpperString s ++ 0 :: t := by
  rw [toUpperString, toUpperString, cstr_append_zero_cons,
    List.drop_append_of_le_length (length_cstr_le s), List.append_assoc]

@[simp] theorem length_toUpperString (mem : Bytes) : (toUpperString mem).length = mem.length := by
  have hle := length_cstr_le mem
  simp only [toUpperString, List.length_append, List.length_map, List.length_drop]
  omega

theorem zero_notMem_map_toupper {s : Bytes} (h : (0 : UInt8) ∉ s) : (0 : UInt8) ∉ s.map toupper := by
  have hall : ∀ c : UInt8, toupper c = 0 → c = 0 := by decide +kernel
  intro hmem
  obtain ⟨c, hc, hupper⟩ := List.mem_map.mp hmem
  exact h (hall c hupper ▸ hc)

theorem toUpperString_strncpy {s : Bytes} (hs : (0 : UInt8) ∉ s) (h : s.length < n) :
    toUpperString (strncpy n s) = strncpy n (s.map toupper) := by
  have hcstr : cstr (strncpy n s) = s := by
    have happend := cstr_strncpy_append hs h []
    rwa [List.append_nil] at happend
  have hle : (s.map toupper).length ≤ n := by
    rw [List.length_map]
    exact Nat.le_of_lt h
  rw [toUpperString, hcstr, strncpy_of_le (Nat.le_of_lt h), strncpy_of_le hle, List.drop_left,
    List.length_map]

-- ---------------------------------------------------------------------------
-- The fields of the request
-- ---------------------------------------------------------------------------

theorem upperMethod_eq {request : HttpRequest}
    (hname : request.method.name.length = maxHttpMethodLength)
    (huri : request.uri.length = maxHttpUriLength) (hflag : request.method.isBodyRequired = false) :
    request.upperMethod = { request with
      method := { request.method with name := toUpperString request.method.name } } := by
  have hmem : toUpperString request.nameMemory =
      toUpperString request.method.name ++ 0 :: (request.uri ++ [0, 0]) := by
    rw [HttpRequest.nameMemory, hflag]
    exact toUpperString_append _ _
  have hlength : (toUpperString request.method.name).length = maxHttpMethodLength := by
    rw [length_toUpperString, hname]
  have htake : (toUpperString request.nameMemory).take maxHttpMethodLength =
      toUpperString request.method.name := by
    rw [hmem, List.take_left' hlength]
  have hdrop : ((toUpperString request.nameMemory).drop (maxHttpMethodLength + 1)).take
      maxHttpUriLength = request.uri := by
    rw [hmem, ← hlength, List.drop_length_add_append, List.drop_one, List.tail_cons,
      List.take_left' huri]
  unfold HttpRequest.upperMethod
  simp only [htake, hdrop]

theorem isBodyRequired_eq {request : HttpRequest}
    (hname : request.method.name.length = maxHttpMethodLength)
    (huri : request.uri.length = maxHttpUriLength) (hflag : request.method.isBodyRequired = false) :
    ∃ flag, isBodyRequired request =
      { request with method := ⟨toUpperString request.method.name, flag⟩ } := by
  unfold isBodyRequired
  rw [upperMethod_eq hname huri hflag]
  exact ⟨_, rfl⟩

/-- The fields as the parts of a request line fill them. -/
structure Filled (line : Bytes) (request : HttpRequest) : Prop where
  name : request.method.name = (strtok 32 line)[0]?.elim (List.replicate maxHttpMethodLength 0)
    fun name => toUpperString (strncpy maxHttpMethodLength name)
  uri : request.uri = (strtok 32 line)[1]?.elim (List.replicate maxHttpUriLength 0)
    (strncpy maxHttpUriLength)
  version : request.version = (strtok 32 line)[2]?.elim .http09 parseVersion

theorem parseRequestLine_filled {request : HttpRequest}
    (hmethod : request.method = HttpRequest.empty.method)
    (huri : request.uri = HttpRequest.empty.uri) (hversion : request.version = .http09) (line : Bytes) :
    Filled line (parseRequestLine request line) := by
  unfold parseRequestLine
  split
  case h_1 hnil =>
    refine ⟨?_, ?_, ?_⟩ <;> rw [hnil]
    · exact congrArg _ hmethod
    · exact huri
    · exact hversion
  case h_2 name rest hcons =>
    have hlength : request.uri.length = maxHttpUriLength := by
      rw [huri]
      exact List.length_replicate
    have hflag : request.method.isBodyRequired = false := by rw [hmethod]; rfl
    obtain ⟨flag, heq⟩ := @isBodyRequired_eq
      { request with method := { request.method with name := strncpy maxHttpMethodLength name } }
      (length_strncpy _ _) hlength hflag
    rw [heq]
    dsimp only
    split
    · refine ⟨?_, ?_, ?_⟩ <;> rw [hcons]
      · rfl
      · exact huri
      · exact hversion
    · split
      · refine ⟨?_, ?_, ?_⟩ <;> rw [hcons]
        · rfl
        · rfl
        · exact hversion
      · refine ⟨?_, ?_, ?_⟩ <;> rw [hcons] <;> rfl

theorem receiveRequest_filled (h : (receiveRequest env head n).request = some request)
    (hfilled : Filled line head) : Filled line request := by
  unfold receiveRequest at h
  split at h
  · exact Option.some.inj h ▸ hfilled
  dsimp only at h
  split at h
  · exact Option.some.inj h ▸ ⟨hfilled.name, hfilled.uri, hfilled.version⟩
  split at h
  · contradiction
  split at h
  · exact Option.some.inj h ▸ ⟨hfilled.name, hfilled.uri, hfilled.version⟩
  · contradiction

def requestLineSize : Nat := maxHttpMethodLength + maxHttpUriLength + maxHttpVersionLength

theorem requestLine_eq (env : Env) (hzero : (0 : UInt8) ∉ line)
    (hlength : line.length < maxHttpMethodLength + maxHttpUriLength + maxHttpVersionLength) :
    requestLine env line = line :=
  cstr_strncpy_append hzero hlength _

def firstLine (text : Bytes) : Bytes := (strtok 10 text).headD []

theorem firstLine_append_cons (hne : line ≠ []) (hlf : (10 : UInt8) ∉ line) (rest : Bytes) :
    firstLine (line ++ 10 :: rest) = line := by
  rw [firstLine, strtok_append_cons hlf, if_neg hne, List.headD_cons]

theorem requestHead_eq (env : Env) (text : Bytes) (request : HttpRequest) :
    requestHead env text request = parseRequestLine { request with
      headersSize := min request.headersSize baseHttpRequestHeaderSize
      headers := some ((stringAt env text (request.requestLineOffset + 1)).take
        (min request.headersSize baseHttpRequestHeaderSize)) }
      (requestLine env (firstLine text)) := by
  unfold requestHead firstLine
  cases strtok 10 text with
  | nil =>
    have hempty : requestLine env [] = [] := requestLine_eq env List.not_mem_nil (by decide)
    rw [List.headD_nil, hempty, parseRequestLine, strtok_nil]
  | cons line lines => rfl

theorem filled_requestHead (env : Env) (text : Bytes) :
    Filled (requestLine env (firstLine text)) (requestHead env text (requestOffsets env text)) := by
  rw [requestHead_eq]
  refine parseRequestLine_filled ?_ ?_ ?_ _ <;> rfl

theorem filled_of_parse (h : (parseHttpRequest env text n).request = some request) :
    Filled (requestLine env (firstLine text)) request := by
  unfold parseHttpRequest at h
  dsimp only at h
  split at h
  · contradiction
  · exact receiveRequest_filled h (filled_requestHead env text)

theorem parseHttpRequest_filled (hne : line ≠ []) (hlf : (10 : UInt8) ∉ line)
    (h : (parseHttpRequest env (line ++ 10 :: rest) n).request = some request) :
    Filled (requestLine env line) request := by
  have hfilled := filled_of_parse h
  rwa [firstLine_append_cons hne hlf] at hfilled

-- ---------------------------------------------------------------------------
-- Round trip
-- ---------------------------------------------------------------------------

def versionText : HttpVersion → Bytes
  | .http09 => bytes "HTTP/0.9"
  | .http10 => bytes "HTTP/1.0"
  | .http11 => bytes "HTTP/1.1"
  | .http20 => bytes "HTTP/2.0"
  | .http30 => bytes "HTTP/3.0"
  | .unknown => []

def isLetter (c : UInt8) : Bool := (65 ≤ c && c ≤ 90) || (97 ≤ c && c ≤ 122)

/-- The parts of a request line within their limits. -/
structure Parts where
  method : Bytes
  uri : Bytes
  version : HttpVersion
  method_ne_nil : method ≠ []
  method_lt : method.length < maxHttpMethodLength
  letters : ∀ c ∈ method, isLetter c
  uri_ne_nil : uri ≠ []
  uri_lt : uri.length < maxHttpUriLength
  uri_clean : ∀ c ∈ uri, c ∉ ([0, 10, 13, 32] : Bytes)
  known : version ≠ .unknown

def Parts.line (parts : Parts) : Bytes :=
  parts.method ++ 32 :: (parts.uri ++ 32 :: (versionText parts.version ++ [13]))

/-- The request has the parts, and its strings end inside their fields. -/
structure Stored (parts : Parts) (request : HttpRequest) : Prop where
  method : request.methodName = parts.method.map toupper
  uri : request.uriText = parts.uri
  version : request.version = parts.version
  method_ends : (0 : UInt8) ∈ request.method.name
  uri_ends : (0 : UInt8) ∈ request.uri

theorem not_mem_method (parts : Parts) (h : isLetter c = false) : c ∉ parts.method := fun hmem => by
  rw [parts.letters c hmem] at h
  contradiction

theorem not_mem_uri (parts : Parts) (h : c ∈ ([0, 10, 13, 32] : Bytes)) : c ∉ parts.uri :=
  fun hmem => parts.uri_clean c hmem h

theorem strtok_line (parts : Parts) :
    strtok 32 parts.line = [parts.method, parts.uri, versionText parts.version ++ [13]] := by
  have hversion : (32 : UInt8) ∉ versionText parts.version ++ [13] := by
    cases parts.version <;> decide
  rw [Parts.line, strtok_append_cons (not_mem_method parts (by decide)), if_neg parts.method_ne_nil,
    strtok_append_cons (not_mem_uri parts (by decide)), if_neg parts.uri_ne_nil,
    strtok_word hversion (by simp)]

theorem parseVersion_text (version : HttpVersion) :
    parseVersion (versionText version ++ [13]) = version := by
  cases version <;> decide

theorem zero_notMem_line (parts : Parts) : (0 : UInt8) ∉ parts.line := by
  have hversion : (0 : UInt8) ∉ versionText parts.version := by cases parts.version <;> decide
  simp [Parts.line, not_mem_method parts, not_mem_uri parts, hversion, isLetter]

theorem lf_notMem_line (parts : Parts) : (10 : UInt8) ∉ parts.line := by
  have hversion : (10 : UInt8) ∉ versionText parts.version := by cases parts.version <;> decide
  simp [Parts.line, not_mem_method parts, not_mem_uri parts, hversion, isLetter]

theorem stored_of_filled (parts : Parts) (h : Filled parts.line request) : Stored parts request := by
  obtain ⟨hname, huri, hversion⟩ := h
  simp only [strtok_line, List.getElem?_cons_zero, List.getElem?_cons_succ, Option.elim_some]
    at hname huri hversion
  have hmethod : (0 : UInt8) ∉ parts.method := not_mem_method parts (by decide)
  have hzero : (0 : UInt8) ∉ parts.uri := not_mem_uri parts (by decide)
  have hlt : (parts.method.map toupper).length < maxHttpMethodLength := by
    rw [List.length_map]
    exact parts.method_lt
  rw [toUpperString_strncpy hmethod parts.method_lt] at hname
  refine ⟨?_, ?_, ?_, ?_, ?_⟩
  · rw [HttpRequest.methodName, HttpRequest.nameMemory, hname]
    exact cstr_strncpy_append (zero_notMem_map_toupper hmethod) hlt _
  · rw [HttpRequest.uriText, huri]
    exact cstr_strncpy_append hzero parts.uri_lt _
  · rw [hversion, parseVersion_text]
  · rw [hname]
    exact zero_mem_strncpy hlt
  · rw [huri]
    exact zero_mem_strncpy parts.uri_lt

theorem parseHttpRequest_stored (parts : Parts)
    (hlength : parts.line.length < maxHttpMethodLength + maxHttpUriLength + maxHttpVersionLength)
    (rest : Bytes) (env : Env) (n : Int)
    (hparsed : (parseHttpRequest env (parts.line ++ 10 :: rest) n).request = some request) :
    Stored parts request := by
  have hne : parts.line ≠ [] := by simp [Parts.line]
  have hfilled := parseHttpRequest_filled hne (lf_notMem_line parts) hparsed
  rw [requestLine_eq env (zero_notMem_line parts) hlength] at hfilled
  exact stored_of_filled parts hfilled

def sampleParts : Parts where
  method := bytes "post"
  uri := bytes "/nodes/7"
  version := .http11
  method_ne_nil := by decide +kernel
  method_lt := by decide +kernel
  letters := by decide +kernel
  uri_ne_nil := by decide +kernel
  uri_lt := by decide +kernel
  uri_clean := by decide +kernel
  known := by decide +kernel

theorem parseHttpRequest_stored_sample :
    ∃ request, (parseHttpRequest .ok (sampleParts.line ++ 10 :: bytes "\r\n") 28).request = some request ∧
      Stored sampleParts request := by
  have hparsed : (parseHttpRequest .ok (sampleParts.line ++ 10 :: bytes "\r\n") 28).request.isSome := by
    decide +kernel
  obtain ⟨request, hrequest⟩ := Option.isSome_iff_exists.mp hparsed
  exact ⟨request, hrequest, parseHttpRequest_stored sampleParts (by decide +kernel) _ .ok 28 hrequest⟩

-- ---------------------------------------------------------------------------
-- Which lines get past the version checks
-- ---------------------------------------------------------------------------

def acceptedVersions : List Bytes := [bytes "HTTP/0.9", bytes "HTTP/1.0", bytes "HTTP/1.1"]

def laterVersions : List Bytes := [bytes "HTTP/2.0", bytes "HTTP/3.0"]

def FullForm (line : Bytes) : Prop :=
  ∃ method uri version, strtok 32 line = [method, uri, version] ∧ version ∈ acceptedVersions

def SimpleForm (line uri : Bytes) : Prop := ∃ method, strtok 32 line = [method, uri]

/-- The checks refuse the request neither with 400 nor with 505. -/
def PastVersion (config : HttpConfig) (request : HttpRequest) : Prop :=
  checkRequest config request ≠ .error 400 ∧ checkRequest config request ≠ .error 505

def refusal (line : Bytes) : Nat :=
  if ∃ version ∈ (strtok 32 line)[2]?, version ∈ laterVersions then 505 else 400

/-- Only the two forms get past the version checks, the simple one with its URI,
and any other line is answered with the code of its refusal. -/
structure Exact (config : HttpConfig) (line : Bytes) (request : HttpRequest)
    (calls : List Call) : Prop where
  past : PastVersion config request → FullForm line ∨ SimpleForm line request.uriText
  refused : ¬ FullForm line → (∀ uri, ¬ SimpleForm line uri) → statusCodes calls = [refusal line]

def begins (versions : List Bytes) (token : Bytes) : Bool := versions.any (·.isPrefixOf token)

def SimpleTold (shown uri : Bytes) : Prop :=
  (∃ token ∈ (strtok 32 shown)[2]?, begins acceptedVersions token = false) ∨
    ∃ token ∈ (strtok 32 shown)[1]?, token.take maxHttpUriLength = uri

def RefusalTold (line shown : Bytes) : Prop :=
  ∃ token ∈ (strtok 32 shown)[2]?, if refusal line = 505 then begins laterVersions token = true
    else begins (acceptedVersions ++ laterVersions) token = false

/-- The parts of the array tell the line apart from the two forms. -/
def Told (line shown : Bytes) : Prop :=
  FullForm line ∨ (∃ uri, SimpleForm line uri ∧ SimpleTold shown uri) ∨
    (∀ uri, ¬ SimpleForm line uri) ∧ RefusalTold line shown

theorem checkRequest_unknown (h : request.version = .unknown) (config : HttpConfig) :
    checkRequest config request = .error 400 := if_pos h

theorem checkRequest_later (hne : request.version ≠ .unknown)
    (hlt : HttpVersion.http11.value < request.version.value) (config : HttpConfig) :
    checkRequest config request = .error 505 := by
  rw [checkRequest, if_neg hne, if_pos hlt]

theorem pastVersion_of_le (hne : request.version ≠ .unknown)
    (hle : request.version.value ≤ HttpVersion.http11.value) (config : HttpConfig) :
    PastVersion config request := by
  unfold PastVersion checkRequest
  rw [if_neg hne, if_neg (Int.not_lt.mpr hle)]
  dsimp only
  split <;> simp

theorem statusCodes_refused (hparsed : (parseHttpRequest env text n).request = some request)
    (hchecked : checkRequest env.config request = .error code) (server : HttpServer) :
    statusCodes (httpServerCallback env server text n).calls = [code] := by
  obtain ⟨calls, heq, hcalls⟩ := parseHttpRequest_calls hparsed
  have hnone : statusCodes calls = [] := by
    refine List.filterMap_eq_nil_iff.mpr fun call hcall => ?_
    have hreceive := hcalls call hcall
    cases call <;> first | rfl | contradiction
  simp only [httpServerCallback, hparsed, hchecked, heq]
  rw [statusCodes_append, statusCodes_rejectRequest, statusCodes_cons_of_not rfl,
    statusCodes_cons_of_not rfl, hnone, List.nil_append]

theorem begins_append (versions versions' : List Bytes) (token : Bytes) :
    begins (versions ++ versions') token = (begins versions token || begins versions' token) :=
  List.any_append

theorem not_begins_later (h : begins acceptedVersions token) : begins laterVersions token = false := by
  rw [← Bool.not_eq_true]
  intro hlater
  obtain ⟨p, hp, hprefix⟩ := List.any_eq_true.mp h
  obtain ⟨q, hq, hprefix'⟩ := List.any_eq_true.mp hlater
  have hlength : ∀ p ∈ acceptedVersions, ∀ q ∈ laterVersions, p.length = q.length ∧ p ≠ q := by decide
  obtain ⟨heq, hne⟩ := hlength p hp q hq
  have hpq := List.prefix_of_prefix_length_le (List.isPrefixOf_iff_prefix.mp hprefix)
    (List.isPrefixOf_iff_prefix.mp hprefix') (Nat.le_of_eq heq)
  exact hne (hpq.eq_of_length heq)

inductive Third (token : Bytes) (version : HttpVersion) : Prop
  | accepted (h : begins acceptedVersions token) (hne : version ≠ .unknown)
      (hle : version.value ≤ HttpVersion.http11.value)
  | later (h : begins laterVersions token) (hne : version ≠ .unknown)
      (hlt : HttpVersion.http11.value < version.value)
  | unknown (h : begins (acceptedVersions ++ laterVersions) token = false) (heq : version = .unknown)

theorem parseVersion_cases (token : Bytes) : Third token (parseVersion token) := by
  unfold parseVersion
  split
  case isTrue h => exact .accepted (by simp [begins, acceptedVersions, h]) (by decide) (by decide)
  case isFalse h09 =>
  split
  case isTrue h => exact .accepted (by simp [begins, acceptedVersions, h]) (by decide) (by decide)
  case isFalse h10 =>
  split
  case isTrue h => exact .accepted (by simp [begins, acceptedVersions, h]) (by decide) (by decide)
  case isFalse h11 =>
  split
  case isTrue h => exact .later (by simp [begins, laterVersions, h]) (by decide) (by decide)
  case isFalse h20 =>
  split
  case isTrue h => exact .later (by simp [begins, laterVersions, h]) (by decide) (by decide)
  case isFalse h30 =>
    exact .unknown (by simp [begins, acceptedVersions, laterVersions, h09, h10, h11, h20, h30]) rfl

theorem pastVersion_iff (h : Filled shown request) (config : HttpConfig) :
    PastVersion config request ↔ ∀ token ∈ (strtok 32 shown)[2]?, begins acceptedVersions token := by
  have hversion := h.version
  cases htoken : (strtok 32 shown)[2]? with
  | none =>
    rw [htoken, Option.elim_none] at hversion
    refine iff_of_true (pastVersion_of_le ?_ ?_ config) (by simp) <;> rw [hversion] <;> decide
  | some token =>
    rw [htoken, Option.elim_some] at hversion
    simp only [Option.mem_some_iff, forall_eq']
    cases parseVersion_cases token with
    | accepted hbegins hne hle =>
      rw [← hversion] at hne hle
      exact iff_of_true (pastVersion_of_le hne hle config) hbegins
    | later hbegins hne hlt =>
      rw [← hversion] at hne hlt
      refine iff_of_false (fun hpast => hpast.2 (checkRequest_later hne hlt config)) fun haccepted => ?_
      rw [not_begins_later haccepted] at hbegins
      contradiction
    | unknown hbegins heq =>
      rw [← hversion] at heq
      refine iff_of_false (fun hpast => hpast.1 (checkRequest_unknown heq config)) fun haccepted => ?_
      rw [begins_append, haccepted] at hbegins
      contradiction

theorem uriText_eq_iff (h : Filled shown request) (hzero : (0 : UInt8) ∉ shown) (hne : uri ≠ []) :
    request.uriText = uri ↔ ∃ token ∈ (strtok 32 shown)[1]?, token.take maxHttpUriLength = uri := by
  unfold HttpRequest.uriText
  rw [h.uri]
  cases htoken : (strtok 32 shown)[1]? with
  | none =>
    have hempty : cstr (List.replicate maxHttpUriLength 0 ++ [0, 0]) = [] := by
      rw [← strncpy_nil, cstr_strncpy_append_zero List.not_mem_nil, List.take_nil]
    simp [hempty, Ne.symm hne]
  | some token =>
    have htoken0 : (0 : UInt8) ∉ token := fun hmem =>
      hzero (mem_of_token (List.mem_of_getElem? htoken) hmem)
    rw [Option.elim_some, cstr_strncpy_append_zero htoken0]
    simp

theorem SimpleForm.uri_eq (h : SimpleForm line uri) (h' : SimpleForm line uri') : uri' = uri := by
  obtain ⟨method, heq⟩ := h
  obtain ⟨method', heq'⟩ := h'
  rw [heq] at heq'
  simp_all

theorem SimpleForm.ne_nil (h : SimpleForm line uri) : uri ≠ [] := by
  obtain ⟨method, heq⟩ := h
  have hmem : uri ∈ strtok 32 line := by simp [heq]
  exact (token_of_mem hmem).2

theorem refusal_cases (line : Bytes) : refusal line = 505 ∨ refusal line = 400 := by
  unfold refusal
  split
  · exact .inl rfl
  · exact .inr rfl

theorem refused_iff (hparsed : (parseHttpRequest env text n).request = some request)
    (hfilled : Filled shown request) (server : HttpServer) (line : Bytes) :
    (¬ PastVersion env.config request ∧
      statusCodes (httpServerCallback env server text n).calls = [refusal line]) ↔
      RefusalTold line shown := by
  have hversion := hfilled.version
  unfold RefusalTold
  rw [pastVersion_iff hfilled env.config]
  cases htoken : (strtok 32 shown)[2]? with
  | none => simp
  | some token =>
    rw [htoken, Option.elim_some] at hversion
    simp only [Option.mem_some_iff, forall_eq', exists_eq_left', begins_append]
    cases parseVersion_cases token with
    | accepted hbegins hne hle =>
      refine iff_of_false (fun h => h.1 hbegins) ?_
      rw [hbegins, not_begins_later hbegins]
      split <;> simp
    | later hbegins hne hlt =>
      have haccepted : ¬ begins acceptedVersions token := fun haccepted => by
        rw [not_begins_later haccepted] at hbegins
        contradiction
      rw [← hversion] at hne hlt
      rw [statusCodes_refused hparsed (checkRequest_later hne hlt _), hbegins, and_iff_right haccepted]
      rcases refusal_cases line with h | h <;> simp [h]
    | unknown hbegins heq =>
      rw [begins_append, Bool.or_eq_false_iff] at hbegins
      rw [← hversion] at heq
      rw [statusCodes_refused hparsed (checkRequest_unknown heq _), hbegins.1, hbegins.2]
      rcases refusal_cases line with h | h <;> simp [h]

theorem exact_simple_iff (hfull : ¬ FullForm line) (huri : SimpleForm line uri) (config : HttpConfig)
    (request : HttpRequest) (calls : List Call) :
    Exact config line request calls ↔ (PastVersion config request → request.uriText = uri) := by
  constructor
  · intro h hpast
    exact (SimpleForm.uri_eq huri ((h.past hpast).resolve_left hfull))
  · intro h
    exact ⟨fun hpast => .inr (h hpast ▸ huri), fun _ hnot => absurd huri (hnot uri)⟩

theorem simpleTold_iff (h : Filled shown request) (hzero : (0 : UInt8) ∉ shown) (hne : uri ≠ [])
    (config : HttpConfig) :
    (PastVersion config request → request.uriText = uri) ↔ SimpleTold shown uri := by
  have hnot : ¬ (∀ token ∈ (strtok 32 shown)[2]?, begins acceptedVersions token) ↔
      ∃ token ∈ (strtok 32 shown)[2]?, begins acceptedVersions token = false := by
    push Not
    simp only [Bool.not_eq_true]
  rw [imp_iff_not_or, pastVersion_iff h config, hnot, uriText_eq_iff h hzero hne, SimpleTold]

theorem exact_neither_iff (hfull : ¬ FullForm line) (hnot : ∀ uri, ¬ SimpleForm line uri)
    (config : HttpConfig) (request : HttpRequest) (calls : List Call) :
    Exact config line request calls ↔
      ¬ PastVersion config request ∧ statusCodes calls = [refusal line] := by
  constructor
  · intro h
    exact ⟨fun hpast => (h.past hpast).elim hfull (hnot _), h.refused hfull hnot⟩
  · rintro ⟨hrefused, hcode⟩
    exact ⟨fun hpast => absurd hpast hrefused, fun _ _ => hcode⟩

/-- The checks are exact for a line exactly if the array tells it apart. -/
theorem exact_iff (hlf : (10 : UInt8) ∉ line)
    (hparsed : (parseHttpRequest env (line ++ 13 :: 10 :: rest) n).request = some request)
    (server : HttpServer) :
    Exact env.config line request
        (httpServerCallback env server (line ++ 13 :: 10 :: rest) n).calls ↔
      Told line (requestLine env (line ++ [13])) := by
  have htext : line ++ 13 :: 10 :: rest = (line ++ [13]) ++ 10 :: rest := by simp
  have hlf' : (10 : UInt8) ∉ line ++ [13] := by simp [hlf]
  have hfilled : Filled (requestLine env (line ++ [13])) request := by
    rw [htext] at hparsed
    exact parseHttpRequest_filled (by simp) hlf' hparsed
  have hzero : (0 : UInt8) ∉ requestLine env (line ++ [13]) := zero_notMem_cstr _
  by_cases hfull : FullForm line
  · exact iff_of_true ⟨fun _ => .inl hfull, fun hnot => absurd hfull hnot⟩ (.inl hfull)
  rw [Told, or_iff_right hfull]
  by_cases hsimple : ∃ uri, SimpleForm line uri
  · obtain ⟨uri, huri⟩ := hsimple
    rw [exact_simple_iff hfull huri, simpleTold_iff hfilled hzero huri.ne_nil]
    constructor
    · intro h
      exact .inl ⟨uri, huri, h⟩
    · rintro (⟨uri', huri', h⟩ | ⟨hnot, -⟩)
      · exact huri.uri_eq huri' ▸ h
      · exact absurd huri (hnot uri)
  · have hnot : ∀ uri, ¬ SimpleForm line uri := fun uri h => hsimple ⟨uri, h⟩
    rw [exact_neither_iff hfull hnot, refused_iff hparsed hfilled, and_iff_right hnot]
    exact (or_iff_right fun ⟨uri, huri, _⟩ => hnot uri huri).symm

-- ---------------------------------------------------------------------------
-- Lines of other forms
-- ---------------------------------------------------------------------------

def nodesLine : Bytes := bytes "GET /nodes HTTP/1.1"

def extraLine : Bytes := bytes "GET / HTTP/1.1 x"

def sampleRouter : HttpServer := ⟨bytes "/srv/web", []⟩

theorem exact_nodesLine :
    ∃ request, (parseHttpRequest .ok (nodesLine ++ 13 :: 10 :: bytes "\r\n") 23).request = some request ∧
      Exact Env.ok.config nodesLine request
        (httpServerCallback .ok sampleRouter (nodesLine ++ 13 :: 10 :: bytes "\r\n") 23).calls := by
  have hparsed : (parseHttpRequest .ok (nodesLine ++ 13 :: 10 :: bytes "\r\n") 23).request.isSome := by
    decide +kernel
  obtain ⟨request, hrequest⟩ := Option.isSome_iff_exists.mp hparsed
  have hfull : FullForm nodesLine :=
    ⟨bytes "GET", bytes "/nodes", bytes "HTTP/1.1", by decide, by decide⟩
  exact ⟨request, hrequest, (exact_iff (by decide) hrequest sampleRouter).mpr (.inl hfull)⟩

/-- A line of four parts gets past the checks, one of a method alone as well, and
one of two parts with the CR in its URI. -/
theorem not_exact_extraLine :
    (∃ request, (parseHttpRequest .ok (extraLine ++ 13 :: 10 :: bytes "\r\n") 20).request = some request ∧
      ¬ Exact Env.ok.config extraLine request
        (httpServerCallback .ok sampleRouter (extraLine ++ 13 :: 10 :: bytes "\r\n") 20).calls) ∧
    (parseHttpRequest .ok (bytes "GET\r\n\r\n") 7).request.map (·.version) = some .http09 ∧
    ((parseHttpRequest .ok (bytes "GET /\r\n\r\n") 9).request.map fun request =>
      (request.version, request.uriText)) = some (.http09, bytes "/\r") := by
  refine ⟨?_, by decide +kernel, by decide +kernel⟩
  have hversion : (parseHttpRequest .ok (extraLine ++ 13 :: 10 :: bytes "\r\n") 20).request.map
      (·.version) = some .http11 := by decide +kernel
  obtain ⟨request, hrequest, hversion⟩ := Option.map_eq_some_iff.mp hversion
  have htokens : strtok 32 extraLine = [bytes "GET", bytes "/", bytes "HTTP/1.1", bytes "x"] := by decide
  refine ⟨request, hrequest, fun hexact => ?_⟩
  have hpast : PastVersion Env.ok.config request :=
    pastVersion_of_le (by rw [hversion]; decide) (by rw [hversion]) _
  rcases hexact.past hpast with ⟨method, uri, version, heq, -⟩ | ⟨method, heq⟩
  · rw [htokens] at heq
    simp at heq
  · rw [htokens] at heq
    simp at heq

end GeoNS.Http.RequestLine
