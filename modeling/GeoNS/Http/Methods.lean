import GeoNS.Http.RequestLine

/-!
# Methods

The name of a method is compared with the beginnings of the names in two tables,
and with the parts of a route's list. Both are compared with equality of names.
-/

namespace GeoNS.Http.Methods

open CString RequestLine

-- ---------------------------------------------------------------------------
-- The names
-- ---------------------------------------------------------------------------

def methodNames : List Bytes :=
  [bytes "GET", bytes "HEAD", bytes "POST", bytes "PATCH", bytes "PUT", bytes "DELETE",
    bytes "CONNECT", bytes "OPTIONS", bytes "TRACE"]

def bodyLessNames : List Bytes := [bytes "GET", bytes "HEAD", bytes "DELETE", bytes "OPTIONS"]

def routerMethods : List Bytes :=
  [bytes "GET", bytes "POST", bytes "PUT", bytes "PATCH", bytes "DELETE", bytes "HEAD",
    bytes "OPTIONS"]

/-- The names that the code's table has as well. -/
def commonNames : List Bytes :=
  [bytes "GET", bytes "HEAD", bytes "POST", bytes "DELETE", bytes "CONNECT", bytes "OPTIONS",
    bytes "TRACE"]

-- ---------------------------------------------------------------------------
-- A name in its array
-- ---------------------------------------------------------------------------

theorem cstr_strncpy {src : Bytes} (hsrc : (0 : UInt8) ∉ src) (n : Nat) :
    cstr (strncpy n src) = src.take n := by
  rw [← cstr_append_zero_cons _ [], cstr_strncpy_append_zero hsrc]

theorem take_toUpperString_append (s t : Bytes) :
    (toUpperString (s ++ t)).take s.length = toUpperString s := by
  by_cases hs : (0 : UInt8) ∈ s
  · have hle := length_cstr_le s
    have hupper : toUpperString (s ++ t) = toUpperString s ++ t := by
      rw [toUpperString, toUpperString, cstr_append_of_mem hs, List.drop_append_of_le_length hle,
        List.append_assoc]
    rw [hupper, List.take_left' (length_toUpperString s)]
  · rw [toUpperString, toUpperString, cstr_append_of_notMem hs, cstr_eq_self hs, List.map_append,
      List.append_assoc, List.take_left' (List.length_map _), List.drop_length, List.append_nil]

theorem toUpperString_of_notMem {s : Bytes} (h : (0 : UInt8) ∉ s) : toUpperString s = s.map toupper := by
  rw [toUpperString, cstr_eq_self h, List.drop_length, List.append_nil]

theorem cstr_toUpperString (mem : Bytes) : cstr (toUpperString mem) = (cstr mem).map toupper := by
  rcases exists_word 0 mem with h | ⟨w, t, h, rfl⟩
  · rw [toUpperString_of_notMem h, cstr_eq_self (zero_notMem_map_toupper h), cstr_eq_self h]
  · rw [toUpperString_append, cstr_append_zero_cons, cstr_append_zero_cons, toUpperString_of_notMem h,
      cstr_eq_self (zero_notMem_map_toupper h), cstr_eq_self h]

/-- A short name is sought in the memory before `b` only. -/
theorem prefix_cstr_append_iff {p a b : Bytes} (h : p.length ≤ a.length) :
    p <+: cstr (a ++ b) ↔ p <+: cstr a := by
  by_cases ha : (0 : UInt8) ∈ a
  · rw [cstr_append_of_mem ha]
  · rw [cstr_append_of_notMem ha, cstr_eq_self ha]
    constructor
    · intro hp
      exact List.prefix_of_prefix_length_le hp (List.prefix_append a _) h
    · exact List.prefix_append_of_prefix

/-- The name that is compared begins with one of the names, if what the array was
given does. -/
theorem begins_upperMethod {request : HttpRequest} {names : List Bytes}
    (hlength : request.method.name.length = maxHttpMethodLength)
    (hnames : ∀ name ∈ names, name.length ≤ maxHttpMethodLength) :
    begins names request.upperMethod.methodName =
      begins names ((cstr request.method.name).map toupper) := by
  have hname : request.upperMethod.method.name = toUpperString request.method.name := by
    rw [← take_toUpperString_append, hlength]
    rfl
  have hlength' : request.upperMethod.method.name.length = maxHttpMethodLength := by
    rw [hname, length_toUpperString, hlength]
  rw [Bool.eq_iff_iff, begins, begins, List.any_eq_true, List.any_eq_true]
  refine exists_congr fun name => and_congr_right fun hmem => ?_
  rw [List.isPrefixOf_iff_prefix, List.isPrefixOf_iff_prefix, HttpRequest.methodName,
    HttpRequest.nameMemory, prefix_cstr_append_iff (by rw [hlength']; exact hnames name hmem), hname,
    cstr_toUpperString]

theorem methodName_upperMethod {request : HttpRequest}
    (hlength : request.method.name.length = maxHttpMethodLength)
    (hzero : (0 : UInt8) ∈ toUpperString request.method.name) :
    request.upperMethod.methodName = (cstr request.method.name).map toupper := by
  have hname : request.upperMethod.method.name = toUpperString request.method.name := by
    rw [← take_toUpperString_append, hlength]
    rfl
  rw [HttpRequest.methodName, HttpRequest.nameMemory, hname, cstr_append_of_mem hzero,
    cstr_toUpperString]

theorem begins_take (n : Nat) {names : List Bytes} (hnames : ∀ name ∈ names, name.length ≤ n) (s : Bytes) :
    begins names (s.take n) = begins names s := by
  rw [Bool.eq_iff_iff, begins, begins, List.any_eq_true, List.any_eq_true]
  refine exists_congr fun name => and_congr_right fun hmem => ?_
  rw [List.isPrefixOf_iff_prefix, List.isPrefixOf_iff_prefix, List.prefix_take_iff,
    and_iff_left (hnames name hmem)]

theorem methodAmong_eq (request : HttpRequest) (names : List String) :
    request.methodAmong names = begins (names.map bytes) request.methodName := by
  rw [HttpRequest.methodAmong, begins, List.any_map]
  rfl

theorem map_toupper_idem (s : Bytes) : (s.map toupper).map toupper = s.map toupper := by
  have hall : ∀ c : UInt8, toupper (toupper c) = toupper c := by decide +kernel
  simp [hall]

theorem standardMethods_length : ∀ name ∈ standardMethods.map bytes, name.length ≤ maxHttpMethodLength := by
  decide

theorem bodyLessMethods_length : ∀ name ∈ bodyLessMethods.map bytes, name.length ≤ maxHttpMethodLength := by
  decide

theorem isBodyRequired_token {request : HttpRequest} {token : Bytes} (hzero : (0 : UInt8) ∉ token)
    (h : request.method.name = strncpy maxHttpMethodLength token) :
    (isBodyRequired request).method.isBodyRequired =
      !begins (bodyLessMethods.map bytes) (token.map toupper) := by
  have hlength : request.method.name.length = maxHttpMethodLength := by rw [h, length_strncpy]
  rw [isBodyRequired, methodAmong_eq, begins_upperMethod hlength bodyLessMethods_length, h,
    cstr_strncpy hzero, List.map_take, begins_take _ bodyLessMethods_length]

theorem isStandardHttpMethod_token {request : HttpRequest} {token : Bytes} (hzero : (0 : UInt8) ∉ token)
    (h : request.method.name = toUpperString (strncpy maxHttpMethodLength token)) :
    (isStandardHttpMethod request).1 = begins (standardMethods.map bytes) (token.map toupper) := by
  have hlength : request.method.name.length = maxHttpMethodLength := by
    rw [h, length_toUpperString, length_strncpy]
  rw [isStandardHttpMethod, methodAmong_eq, begins_upperMethod hlength standardMethods_length, h,
    cstr_toUpperString, cstr_strncpy hzero, map_toupper_idem, List.map_take,
    begins_take _ standardMethods_length]

-- ---------------------------------------------------------------------------
-- The gate
-- ---------------------------------------------------------------------------

def routed (env : Env) (text : Bytes) (n : Int) : Option HttpRequest :=
  (parseHttpRequest env text n).request.bind fun request =>
    match checkRequest env.config request with
    | .error _ => none
    | .ok checked => some checked

theorem checkRequest_past {config : HttpConfig} {request : HttpRequest} (h : PastVersion config request) :
    checkRequest config request =
      if !(isStandardHttpMethod request).1 && !config.acceptAnyMethod then .error 501
      else .ok request.upperMethod := by
  obtain ⟨hunknown, hlater⟩ := h
  unfold checkRequest at hunknown hlater ⊢
  split
  case isTrue hversion => simp [hversion] at hunknown
  case isFalse hversion =>
    rw [if_neg hversion] at hlater
    split
    case isTrue h => simp [h] at hlater
    case isFalse => rfl

theorem requestLine_of_lt {w : Bytes} (hzero : (0 : UInt8) ∉ w) (h : w.length < requestLineSize)
    (env : Env) (t : Bytes) : ∃ v, requestLine env (w ++ 32 :: t) = w ++ 32 :: v := by
  obtain ⟨k, hk⟩ := Nat.exists_eq_add_of_lt h
  unfold requestLine strncpy
  rw [← requestLineSize, hk, List.append_assoc, List.take_append, List.take_of_length_le (by omega),
    Nat.add_assoc, Nat.add_sub_cancel_left, List.cons_append, List.take_succ_cons, List.append_assoc,
    cstr_append_of_notMem hzero]
  exact ⟨_, rfl⟩

theorem requestLine_of_le {w : Bytes} (hzero : (0 : UInt8) ∉ w) (h : requestLineSize ≤ w.length)
    (env : Env) (t : Bytes) :
    requestLine env (w ++ t) = w.take requestLineSize ++ cstr env.lineTail := by
  have hclean : (0 : UInt8) ∉ w.take requestLineSize := fun hmem => hzero (List.mem_of_mem_take hmem)
  unfold requestLine strncpy
  rw [← requestLineSize, List.append_assoc, List.take_append_of_le_length h,
    cstr_append_of_notMem hclean]

/-- The first token of a text is that of the array of its first line, as far as it
is compared. -/
theorem exists_token {token : Bytes} (hne : token ≠ []) (hzero : (0 : UInt8) ∉ token)
    (hlf : (10 : UInt8) ∉ token) (hspace : (32 : UInt8) ∉ token) (env : Env) (rest : Bytes) :
    ∃ shown, (strtok 32 (requestLine env (firstLine (token ++ 32 :: rest))))[0]? = some shown ∧
      shown.take maxHttpMethodLength = token.take maxHttpMethodLength ∧ (0 : UInt8) ∉ shown := by
  obtain ⟨r, lines, hlines⟩ := exists_strtok_append (d := 10) (w := token ++ [32]) (by simp [hlf])
    (by simp) rest
  have hline : firstLine (token ++ 32 :: rest) = token ++ 32 :: r := by
    rw [List.append_assoc, List.singleton_append] at hlines
    rw [firstLine, hlines, List.headD_cons, List.append_assoc, List.singleton_append]
  rw [hline]
  obtain ⟨shown, tokens, hshown, htake⟩ : ∃ shown tokens,
      strtok 32 (requestLine env (token ++ 32 :: r)) = shown :: tokens ∧
        shown.take maxHttpMethodLength = token.take maxHttpMethodLength := by
    rcases Nat.lt_or_ge token.length requestLineSize with hlength | hlength
    · obtain ⟨v, hv⟩ := requestLine_of_lt hzero hlength env r
      exact ⟨token, strtok 32 v, by rw [hv, strtok_append_cons hspace, if_neg hne], rfl⟩
    · have hword : (32 : UInt8) ∉ token.take requestLineSize :=
        fun hmem => hspace (List.mem_of_mem_take hmem)
      have hne' : token.take requestLineSize ≠ [] := by
        intro hnil
        have hcut := List.length_take_of_le hlength
        rw [hnil] at hcut
        contradiction
      obtain ⟨v, tokens, hv⟩ := exists_strtok_append hword hne' (cstr env.lineTail)
      refine ⟨token.take requestLineSize ++ v, tokens, ?_, ?_⟩
      · rw [requestLine_of_le hzero hlength, hv]
      · have hle : maxHttpMethodLength ≤ (token.take requestLineSize).length := by
          rw [List.length_take_of_le hlength]
          decide
        rw [List.take_append_of_le_length hle, List.take_take]
        rfl
  refine ⟨shown, by rw [hshown]; rfl, htake, fun hmem => ?_⟩
  have htoken : shown ∈ strtok 32 (requestLine env (token ++ 32 :: r)) := by
    rw [hshown]
    exact List.mem_cons_self
  exact zero_notMem_cstr _ (mem_of_token htoken hmem)

-- ---------------------------------------------------------------------------
-- Classification
-- ---------------------------------------------------------------------------

/-- A request with the token as its method, as `is_body_required` leaves it. -/
def methodRequest (token : Bytes) : HttpRequest :=
  isBodyRequired { HttpRequest.empty with
    method := { HttpRequest.empty.method with name := strncpy maxHttpMethodLength token } }

/-- A request that begins with the token gets past the versions, and other methods
than the known ones are to be refused. -/
structure Gated (env : Env) (token rest : Bytes) (n : Int) (request : HttpRequest) : Prop where
  strict : env.config.acceptAnyMethod = false
  parsed : (parseHttpRequest env (token ++ 32 :: rest) n).request = some request
  past : PastVersion env.config request

/-- The token is classified by its name. -/
structure Classified (token : Bytes) : Prop where
  standard : (isStandardHttpMethod (methodRequest token)).1 = true ↔ token.map toupper ∈ methodNames
  body : (methodRequest token).method.isBodyRequired = false ↔ token.map toupper ∈ bodyLessNames
  refused : ∀ env rest n request, Gated env token rest n request →
    (checkRequest env.config request = .error 501 ↔ token.map toupper ∉ methodNames)
  answered : ∀ env rest n request server, Gated env token rest n request →
    token.map toupper ∉ methodNames →
      statusCodes (httpServerCallback env server (token ++ 32 :: rest) n).calls = [501]
  reached : ∀ env rest n request, Gated env token rest n request →
    token.map toupper ∈ routerMethods → ∃ checked, checkRequest env.config request = .ok checked ∧
      ∀ route, HttpRoute.method route = token.map toupper → isRequestMethodAllowed route checked = true

/-- A name that the table holds in parts, and one that only begins with a name,
is not told from the known ones. -/
def Told (name : Bytes) : Prop :=
  name ≠ bytes "PATCH" ∧ name ≠ bytes "PUT" ∧ ¬ bytes "PATCHPUT" <+: name ∧
    ∀ known ∈ commonNames, known <+: name → name = known

instance (name : Bytes) : Decidable (Told name) := inferInstanceAs (Decidable (_ ∧ _))

theorem begins_iff (names : List Bytes) (name : Bytes) :
    begins names name = true ↔ ∃ known ∈ names, known <+: name := by
  simp only [begins, List.any_eq_true, List.isPrefixOf_iff_prefix]

theorem mem_standardMethods (known : Bytes) :
    known ∈ standardMethods.map bytes ↔ known = bytes "PATCHPUT" ∨ known ∈ commonNames := by
  have hperm : (standardMethods.map bytes).Perm (bytes "PATCHPUT" :: commonNames) := by decide
  rw [hperm.mem_iff, List.mem_cons]

theorem mem_methodNames (known : Bytes) :
    known ∈ methodNames ↔ known = bytes "PATCH" ∨ known = bytes "PUT" ∨ known ∈ commonNames := by
  have hperm : methodNames.Perm (bytes "PATCH" :: bytes "PUT" :: commonNames) := by decide
  rw [hperm.mem_iff, List.mem_cons, List.mem_cons]

theorem eq_of_prefix : ∀ known ∈ commonNames, ∀ name ∈ methodNames, known <+: name → name = known := by
  decide

theorem standard_iff_told (name : Bytes) :
    (begins (standardMethods.map bytes) name = true ↔ name ∈ methodNames) ↔ Told name := by
  constructor
  · intro h
    refine ⟨?_, ?_, ?_, ?_⟩
    · rintro rfl
      exact absurd (h.mpr (by decide)) (by decide)
    · rintro rfl
      exact absurd (h.mpr (by decide)) (by decide)
    · intro hprefix
      have hmem := h.mp ((begins_iff _ _).mpr ⟨_, (mem_standardMethods _).mpr (.inl rfl), hprefix⟩)
      have hshort : ∀ known ∈ methodNames, known.length < (bytes "PATCHPUT").length := by decide
      exact absurd hprefix.length_le (Nat.not_le_of_lt (hshort name hmem))
    · intro known hknown hprefix
      have hmem := h.mp ((begins_iff _ _).mpr ⟨known, (mem_standardMethods _).mpr (.inr hknown), hprefix⟩)
      exact eq_of_prefix known hknown name hmem hprefix
  · rintro ⟨hpatch, hput, hboth, hcommon⟩
    rw [begins_iff, mem_methodNames]
    constructor
    · rintro ⟨known, hknown, hprefix⟩
      rcases (mem_standardMethods known).mp hknown with rfl | hknown
      · exact absurd hprefix hboth
      · exact .inr (.inr (hcommon known hknown hprefix ▸ hknown))
    · rintro (hmem | hmem | hmem)
      · exact absurd hmem hpatch
      · exact absurd hmem hput
      · exact ⟨name, (mem_standardMethods name).mpr (.inr hmem), List.prefix_rfl⟩

theorem bodyLess_of_told {name : Bytes} (h : Told name) :
    begins (bodyLessMethods.map bytes) name = true ↔ name ∈ bodyLessNames := by
  obtain ⟨-, -, -, hcommon⟩ := h
  have hsubset : ∀ known ∈ bodyLessNames, known ∈ commonNames := by decide
  rw [begins_iff]
  constructor
  · rintro ⟨known, hknown, hprefix⟩
    have heq := hcommon known (hsubset known hknown) hprefix
    exact heq ▸ hknown
  · intro hmem
    exact ⟨name, hmem, List.prefix_rfl⟩

theorem methodRequest_name (token : Bytes) :
    (methodRequest token).method.name = toUpperString (strncpy maxHttpMethodLength token) := by
  obtain ⟨flag, heq⟩ := @isBodyRequired_eq { HttpRequest.empty with
    method := { HttpRequest.empty.method with name := strncpy maxHttpMethodLength token } }
    (length_strncpy _ _) List.length_replicate rfl
  rw [methodRequest, heq]

theorem Gated.checkRequest_eq {token : Bytes} (hne : token ≠ []) (hzero : (0 : UInt8) ∉ token)
    (hlf : (10 : UInt8) ∉ token) (hspace : (32 : UInt8) ∉ token)
    (h : Gated env token rest n request) :
    checkRequest env.config request =
      if begins (standardMethods.map bytes) (token.map toupper) then .ok request.upperMethod
      else .error 501 := by
  obtain ⟨shown, hshown, htake, hclean⟩ := exists_token hne hzero hlf hspace env rest
  have hname := (filled_of_parse h.parsed).name
  rw [hshown, Option.elim_some] at hname
  have hbegins : begins (standardMethods.map bytes) (shown.map toupper) =
      begins (standardMethods.map bytes) (token.map toupper) := by
    rw [← begins_take _ standardMethods_length, ← List.map_take, htake, List.map_take,
      begins_take _ standardMethods_length]
  rw [checkRequest_past h.past, isStandardHttpMethod_token hclean hname, hbegins, h.strict]
  cases begins (standardMethods.map bytes) (token.map toupper) <;> rfl

theorem Gated.methodName_eq {token : Bytes} (hne : token ≠ []) (hzero : (0 : UInt8) ∉ token)
    (hlf : (10 : UInt8) ∉ token) (hspace : (32 : UInt8) ∉ token)
    (hlength : token.length < maxHttpMethodLength) (h : Gated env token rest n request) :
    request.upperMethod.methodName = token.map toupper := by
  obtain ⟨shown, hshown, htake, -⟩ := exists_token hne hzero hlf hspace env rest
  have heq : shown = token := by
    rw [List.take_of_length_le (Nat.le_of_lt hlength)] at htake
    rw [← htake, List.take_of_length_le]
    rw [← htake, List.length_take] at hlength
    omega
  have hname := (filled_of_parse h.parsed).name
  rw [hshown, Option.elim_some, heq, toUpperString_strncpy hzero hlength] at hname
  have hclean := zero_notMem_map_toupper hzero
  have hshort : (token.map toupper).length < maxHttpMethodLength := by rwa [List.length_map]
  rw [methodName_upperMethod (by rw [hname, length_strncpy]), hname, cstr_strncpy hclean,
    List.take_of_length_le (Nat.le_of_lt hshort), map_toupper_idem]
  rw [hname, toUpperString_strncpy hclean hshort]
  exact zero_mem_strncpy (by rwa [List.length_map])

/-- Exactly the methods that are told from the known ones are classified. -/
theorem classified_iff {token : Bytes} (hne : token ≠ []) (hzero : (0 : UInt8) ∉ token)
    (hlf : (10 : UInt8) ∉ token) (hspace : (32 : UInt8) ∉ token) :
    Classified token ↔ Told (token.map toupper) := by
  have hstandard := isStandardHttpMethod_token hzero (methodRequest_name token)
  constructor
  · intro h
    have hcode := h.standard
    rw [hstandard] at hcode
    exact (standard_iff_told _).mp hcode
  · intro h
    have htable := (standard_iff_told _).mpr h
    refine ⟨hstandard ▸ htable, ?_, ?_, ?_, ?_⟩
    · rw [methodRequest, isBodyRequired_token hzero rfl, Bool.not_eq_false', bodyLess_of_told h]
    · intro env rest n request hgated
      rw [hgated.checkRequest_eq hne hzero hlf hspace, ← htable]
      split <;> simp [*]
    · intro env rest n request server hgated hother
      refine statusCodes_refused hgated.parsed ?_ server
      rw [hgated.checkRequest_eq hne hzero hlf hspace, if_neg fun h => hother (htable.mp h)]
    · intro env rest n request hgated hrouter
      have hknown : ∀ name ∈ routerMethods, name ∈ methodNames ∧ name.length < maxHttpMethodLength := by
        decide
      obtain ⟨hmem, hlength⟩ := hknown _ hrouter
      rw [List.length_map] at hlength
      refine ⟨request.upperMethod, ?_, fun route hroute => ?_⟩
      · rw [hgated.checkRequest_eq hne hzero hlf hspace, if_pos (htable.mpr hmem)]
      · rw [isRequestMethodAllowed, hroute, hgated.methodName_eq hne hzero hlf hspace hlength]
        exact strstr_isSome_iff.mpr List.infix_rfl

theorem classified_delete : Classified (bytes "delete") :=
  (classified_iff (by decide) (by decide) (by decide) (by decide)).mpr (by decide)

/-- Two methods of the router do not get to their routes, and a name that begins
like a known one does. -/
theorem not_classified_patch :
    bytes "PATCH" ∈ routerMethods ∧ (isStandardHttpMethod (methodRequest (bytes "PATCH"))).1 = false ∧
      statusCodes (httpServerCallback .ok sampleRouter (bytes "PATCH / HTTP/1.1\r\n\r\n") 20).calls =
        [501] ∧
      (isStandardHttpMethod (methodRequest (bytes "GETX"))).1 = true ∧
      ¬ Classified (bytes "PATCH") ∧ ¬ Classified (bytes "PUT") ∧ ¬ Classified (bytes "GETX") := by
  refine ⟨by decide, by decide +kernel, by decide +kernel, by decide +kernel, ?_, ?_, ?_⟩
  · intro h
    exact absurd (h.standard.mpr (by decide)) (by decide +kernel)
  · intro h
    exact absurd (h.standard.mpr (by decide)) (by decide +kernel)
  · intro h
    exact absurd (h.standard.mp (by decide +kernel)) (by decide)

-- ---------------------------------------------------------------------------
-- The list of a route
-- ---------------------------------------------------------------------------

def listedNames (route : HttpRoute) : List Bytes := strtok 124 route.method

/-- The method is a name of the list wherever it is a part of one, and no text
across two names. -/
def Distinct (route : HttpRoute) (method : Bytes) : Prop :=
  method ≠ [] ∧ (124 ∈ method → ¬ method <:+: route.method) ∧
    ∀ name ∈ listedNames route, method <:+: name → method ∈ listedNames route

/-- A method is admitted for its name exactly where no part of the list can be
taken for a name. -/
theorem isRequestMethodAllowed_iff (route : HttpRoute) (request : HttpRequest) :
    (isRequestMethodAllowed route request = true ↔ request.methodName ∈ listedNames route) ↔
      Distinct route request.methodName := by
  rw [isRequestMethodAllowed, strstr_isSome_iff]
  unfold Distinct listedNames
  constructor
  · intro h
    refine ⟨?_, ?_, ?_⟩
    · intro hnil
      have hmem := h.mp (hnil ▸ List.nil_infix)
      exact (token_of_mem hmem).2 hnil
    · intro hbar hinside
      exact (token_of_mem (h.mp hinside)).1 hbar
    · intro name hname hinside
      exact h.mp (hinside.trans (infix_of_token hname))
  · rintro ⟨hne, hbar, hparts⟩
    constructor
    · intro hinside
      obtain ⟨name, hname, hpart⟩ := exists_token_of_infix hne (fun hmem => hbar hmem hinside) hinside
      exact hparts name hname hpart
    · exact infix_of_token

def homeRoute : HttpRoute := ⟨[⟨bytes "/", false⟩], 0, callbackHome, bytes "GET|POST"⟩

def anyMethod : Env := { Env.ok with config := { Env.ok.config with acceptAnyMethod := true } }

/-- A part of a name is admitted as well, where any method is accepted. -/
theorem not_admitted_part :
    ∃ request, routed anyMethod (bytes "OS / HTTP/1.1\r\n\r\n") 17 = some request ∧
      request.methodName = bytes "OS" ∧ bytes "OS" ∉ listedNames homeRoute ∧
      ¬ (isRequestMethodAllowed homeRoute request = true ↔
        request.methodName ∈ listedNames homeRoute) := by
  have hchecked : (routed anyMethod (bytes "OS / HTTP/1.1\r\n\r\n") 17).map
      (fun request => (request.methodName, isRequestMethodAllowed homeRoute request)) =
        some (bytes "OS", true) := by
    decide +kernel
  obtain ⟨request, hrequest, heq⟩ := Option.map_eq_some_iff.mp hchecked
  obtain ⟨hname, hallowed⟩ := Prod.mk.inj heq
  have hnot : bytes "OS" ∉ listedNames homeRoute := by decide
  refine ⟨request, hrequest, hname, hnot, fun h => hnot ?_⟩
  rw [← hname]
  exact h.mp hallowed

end GeoNS.Http.Methods
