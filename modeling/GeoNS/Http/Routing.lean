import GeoNS.Runs
import GeoNS.Http.Server

/-!
# Routing by method and path

The server first looks for a route by its path alone and then compares the
method with that one route. A reference looks for the first route that fits
both. The two agree exactly where the first route of the path decides.
-/

namespace GeoNS.Http.Routing

open CString Runs

structure Registration where
  method : Bytes
  route : Bytes
  callback : HttpCallback

def register (routes : List HttpRoute) (r : Registration) : Option (List HttpRoute) :=
  setHttpRoute routes r.method r.route r.callback

-- ---------------------------------------------------------------------------
-- The reference
-- ---------------------------------------------------------------------------

/-- What the server goes on to: a callback, the refusal of the method, or the
public directory. -/
inductive Choice
  | invoke (i : Nat)
  | methodNotAllowed
  | publicFile
  deriving DecidableEq, Repr

def Registration.segments (r : Registration) : List RouteSegment :=
  (strtok 47 r.route).map createRouteSegment

def RouteSegment.accepts (rseg : RouteSegment) (seg : Bytes) : Bool :=
  rseg.isParametric || rseg.value == seg

def patternMatches : List RouteSegment → List Bytes → Bool
  | [], [] => true
  | rseg :: rsegs, seg :: segs => RouteSegment.accepts rseg seg && patternMatches rsegs segs
  | _, _ => false

def Registration.pathMatches (r : Registration) (uri : Bytes) : Bool :=
  patternMatches r.segments (strtok 47 uri)

def Registration.lists (r : Registration) (method : Bytes) : Bool :=
  (strtok 124 r.method).contains method

def reference (rs : List Registration) (uri method : Bytes) : Choice :=
  match rs.findIdx? fun r => r.pathMatches uri && r.lists method with
  | some i => .invoke i
  | none => if rs.any (·.pathMatches uri) then .methodNotAllowed else .publicFile

def choiceOf : Call → Option Choice
  | .invoke i _ => some (.invoke i)
  | .stat _ => some .publicFile
  | .send response => if response.statusCode = 405 then some .methodNotAllowed else none
  | _ => none

/-- The choice of a run: the first one its calls show. -/
def choice (calls : List Call) : Option Choice := calls.findSome? choiceOf

-- ---------------------------------------------------------------------------
-- The table
-- ---------------------------------------------------------------------------

def Registration.stored (r : Registration) : HttpRoute where
  segment := if r.route = bytes "/" then [⟨bytes "/", false⟩] else r.segments
  segmentSize := UInt16.ofNat r.segments.length
  callback := r.callback
  method := r.method

/-- Only the root has the size 0. -/
def Registration.Rooted (r : Registration) : Prop :=
  UInt16.ofNat r.segments.length = 0 → r.route = bytes "/"

theorem register_eq (h : register routes r = some routes') :
    routes' = routes ++ [r.stored] ∧ r.Rooted := by
  unfold register setHttpRoute at h
  split at h
  · contradiction
  split at h
  case isTrue hroot =>
    rw [← Option.some.inj h]
    have hsegments : r.segments = [] := by rw [Registration.segments, hroot]; decide
    simp [Registration.stored, Registration.Rooted, hroot, hsegments]
  case isFalse hroot =>
    dsimp only at h
    split at h
    · contradiction
    case isFalse hsize =>
      rw [← Option.some.inj h]
      exact ⟨by simp [Registration.stored, hroot, Registration.segments], fun h0 => absurd h0 hsize⟩

theorem run_register (h : run register routes rs = some routes') :
    routes' = routes ++ rs.map Registration.stored ∧ ∀ r ∈ rs, r.Rooted := by
  induction rs generalizing routes with
  | nil =>
    cases h
    simp
  | cons r rs ih =>
    obtain ⟨next, hr, hrest⟩ := run_cons.mp h
    obtain ⟨rfl, hrooted⟩ := register_eq hr
    obtain ⟨rfl, hall⟩ := ih hrest
    refine ⟨by simp, fun r' hmem => ?_⟩
    rcases List.mem_cons.mp hmem with rfl | hmem
    · exact hrooted
    · exact hall r' hmem

-- ---------------------------------------------------------------------------
-- The search by path
-- ---------------------------------------------------------------------------

theorem length_of_patternMatches (h : patternMatches rsegs segs) : rsegs.length = segs.length := by
  induction rsegs, segs using patternMatches.induct with
  | case1 => rfl
  | case2 rseg rsegs seg segs ih =>
    simp only [patternMatches, Bool.and_eq_true] at h
    simp [ih h.2]
  | case3 => simp [patternMatches] at h

theorem matchSegments_fst (rsegs : List RouteSegment) (segs : List Bytes) (params : StringMap) :
    (matchSegments rsegs segs params).1 = patternMatches (rsegs.take segs.length) segs := by
  induction rsegs, segs, params using matchSegments.induct with
  | case1 rsegs params => cases rsegs <;> simp [matchSegments, patternMatches]
  | case2 seg segs params => simp [matchSegments, patternMatches]
  | case3 rseg rsegs seg segs params h ih =>
    simp [matchSegments, patternMatches, RouteSegment.accepts, h, ih]
  | case4 rseg rsegs segs params h ih =>
    simp [matchSegments, patternMatches, RouteSegment.accepts, h, ih]
  | case5 rseg rsegs seg segs params h hne =>
    simp [matchSegments, patternMatches, RouteSegment.accepts, h, hne]

/-- The search for these segments stops at the route. -/
def stopsAt (segs : List Bytes) (route : HttpRoute) : Bool :=
  route.segmentSize == UInt16.ofNat segs.length && patternMatches (route.segment.take segs.length) segs

inductive Found (segs : List Bytes) (i : Nat) : List HttpRoute → Option (Nat × HttpRoute) → Prop
  | none (h : ∀ route ∈ routes, stopsAt segs route = false) : Found segs i routes none
  | some (before after : List HttpRoute) (h : stopsAt segs route)
      (hbefore : ∀ route ∈ before, stopsAt segs route = false) :
    Found segs i (before ++ route :: after) (some (i + before.length, route))

theorem Found.cons (hroute : stopsAt segs route = false) (h : Found segs (i + 1) routes found) :
    Found segs i (route :: routes) found := by
  cases h with
  | none h => exact .none (List.forall_mem_cons.mpr ⟨hroute, h⟩)
  | some before after h hbefore =>
    have hi : i + 1 + before.length = i + (route :: before).length := by
      rw [List.length_cons]
      omega
    rw [hi, ← List.cons_append]
    exact .some (route :: before) after h (List.forall_mem_cons.mpr ⟨hroute, hbefore⟩)

theorem findRoute_found (segs : List Bytes) (i : Nat) (routes : List HttpRoute) (params : StringMap) :
    Found segs i routes (findRoute segs i routes params).1 := by
  induction routes generalizing i params with
  | nil => exact .none (by simp)
  | cons route routes ih =>
    have hmatch := matchSegments_fst route.segment segs params
    unfold findRoute
    split
    case isTrue hsize =>
      split
      case h_1 params' heq =>
        rw [heq] at hmatch
        exact .some [] routes (by simp [stopsAt, hsize, ← hmatch]) (by simp)
      case h_2 params' heq =>
        rw [heq] at hmatch
        exact .cons (by simp [stopsAt, ← hmatch]) (ih (i + 1) params')
    case isFalse hsize => exact .cons (by simp [stopsAt, hsize]) (ih (i + 1) params)

theorem findRootRoute_found {rs : List Registration} (i : Nat) (hrooted : ∀ r ∈ rs, r.Rooted) :
    Found [] i (rs.map Registration.stored) (findRootRoute i (rs.map Registration.stored)) := by
  induction rs generalizing i with
  | nil => exact .none (by simp)
  | cons r rs ih =>
    have hrest := ih (i + 1) fun r' h => hrooted r' (List.mem_cons_of_mem r h)
    rw [List.map_cons, findRootRoute]
    split
    case isTrue h => exact .some [] _ (by simp [stopsAt, h.1, patternMatches]) (by simp)
    case isFalse h =>
      refine .cons ?_ hrest
      have hsize : r.stored.segmentSize ≠ 0 := fun hzero => h ⟨hzero, by
        simp [Registration.stored, hrooted r List.mem_cons_self hzero, bytes]⟩
      simp [stopsAt, hsize]

/-- The server stops at the first route of the path, if the URI's segments fit
their array. -/
theorem isRouteExists_found (h : run register [] rs = some routes) (uri : Bytes)
    (params : StringMap) :
    (maxRequestSegments < (strtok 47 uri).length ∧ isRouteExists routes uri params = none) ∨
      (strtok 47 uri).length ≤ maxRequestSegments ∧ ∃ found params',
        isRouteExists routes uri params = some (found, params') ∧
          Found (strtok 47 uri) 0 (rs.map Registration.stored) found := by
  obtain ⟨rfl, hrooted⟩ := run_register h
  rw [List.nil_append]
  unfold isRouteExists
  split
  case isTrue hroot =>
    have hsegs : strtok 47 uri = [] := by rw [hroot]; decide
    rw [hsegs]
    exact .inr ⟨Nat.zero_le _, _, _, rfl, findRootRoute_found 0 hrooted⟩
  case isFalse hroot =>
    dsimp only
    split
    case isTrue hfits => exact .inr ⟨hfits, _, _, rfl, findRoute_found _ 0 _ params⟩
    case isFalse hfits => exact .inl ⟨Nat.lt_of_not_le hfits, rfl⟩

-- ---------------------------------------------------------------------------
-- The two searches
-- ---------------------------------------------------------------------------

def Registration.stops (r : Registration) (uri : Bytes) : Bool := stopsAt (strtok 47 uri) r.stored

theorem ushort_eq_iff : UInt16.ofNat m = UInt16.ofNat n ↔ m % 65536 = n % 65536 := by
  rw [← UInt16.toNat_inj, UInt16.toNat_ofNat', UInt16.toNat_ofNat']

theorem stored_segment_take (r : Registration) {segs : List Bytes} (hfits : segs.length ≤ maxRequestSegments)
    (hsize : UInt16.ofNat r.segments.length = UInt16.ofNat segs.length) :
    r.stored.segment.take segs.length = r.segments.take segs.length := by
  unfold Registration.stored
  split
  case isTrue hroot =>
    have hsegments : r.segments = [] := by rw [Registration.segments, hroot]; decide
    rw [hsegments, ushort_eq_iff] at hsize
    have hnil : segs.length = 0 := by
      unfold maxRequestSegments at hfits
      simp only [List.length_nil] at hsize
      omega
    rw [hnil, List.take_zero, List.take_zero]
  case isFalse => rfl

/-- A pattern matches where the search stops, unless the size of the route has
wrapped. -/
theorem pathMatches_iff (r : Registration) (hfits : (strtok 47 uri).length ≤ maxRequestSegments) :
    r.pathMatches uri ↔ r.stops uri ∧ r.segments.length < 65536 := by
  unfold Registration.pathMatches Registration.stops stopsAt
  unfold maxRequestSegments at hfits
  constructor
  · intro h
    have hlength := length_of_patternMatches h
    refine ⟨?_, by omega⟩
    rw [stored_segment_take r hfits (congrArg UInt16.ofNat hlength), ← hlength, List.take_length]
    simp [Registration.stored, h]
  · rintro ⟨hstops, hlt⟩
    simp only [Bool.and_eq_true, beq_iff_eq] at hstops
    obtain ⟨hsize, hmatch⟩ := hstops
    have hlength : r.segments.length = (strtok 47 uri).length := by
      have hmod := ushort_eq_iff.mp hsize
      omega
    rw [stored_segment_take r hfits hsize] at hmatch
    rwa [← hlength, List.take_length] at hmatch

theorem pathMatches_of_not_stops (hfits : (strtok 47 uri).length ≤ maxRequestSegments)
    {r : Registration} (h : r.stops uri = false) : r.pathMatches uri = false := by
  by_contra hmatches
  have hstops := ((pathMatches_iff r hfits).mp (by simpa using hmatches)).1
  rw [h] at hstops
  contradiction

theorem found_cases {rs : List Registration}
    (h : Found (strtok 47 uri) 0 (rs.map Registration.stored) found) :
    (found = none ∧ ∀ r ∈ rs, r.stops uri = false) ∨
      ∃ earlier r later, rs = earlier ++ r :: later ∧ found = some (earlier.length, r.stored) ∧
        r.stops uri ∧ ∀ r' ∈ earlier, r'.stops uri = false := by
  generalize hstored : rs.map Registration.stored = stored at h
  cases h with
  | none hstops =>
    subst hstored
    exact .inl ⟨rfl, fun r hr => hstops _ (List.mem_map_of_mem hr)⟩
  | @some route before after hstops hbefore =>
    obtain ⟨earlier, rest, rfl, rfl, hrest⟩ := List.map_eq_append_iff.mp hstored
    obtain ⟨r, later, rfl, rfl, rfl⟩ := List.map_eq_cons_iff.mp hrest
    refine .inr ⟨earlier, r, later, rfl, ?_, hstops, fun r' hr => hbefore _ (List.mem_map_of_mem hr)⟩
    rw [Nat.zero_add, List.length_map]

/-- The URI's segments fit their array, and the first route the search stops at
decides: it lists the method if its text contains it, and else no route of the
path does. -/
def Decisive (rs : List Registration) (uri method : Bytes) : Prop :=
  (strtok 47 uri).length ≤ maxRequestSegments ∧
    ∀ r ∈ rs.find? (·.stops uri),
      if (strstr r.method method).isSome then r.segments.length < 65536 ∧ r.lists method
      else (∃ r ∈ rs, r.pathMatches uri) ∧ ∀ r ∈ rs, r.pathMatches uri → r.lists method = false

theorem reference_eq_publicFile (h : ∀ r ∈ rs, Registration.pathMatches r uri = false)
    (method : Bytes) : reference rs uri method = .publicFile := by
  have hfind : rs.findIdx? (fun r => r.pathMatches uri && r.lists method) = none := by
    rw [List.findIdx?_eq_none_iff]
    intro r hr
    rw [h r hr, Bool.false_and]
  have hany : rs.any (·.pathMatches uri) = false := by simpa using h
  simp [reference, hfind, hany]

theorem reference_eq_methodNotAllowed_iff (rs : List Registration) (uri method : Bytes) :
    reference rs uri method = .methodNotAllowed ↔
      (∃ r ∈ rs, r.pathMatches uri) ∧ ∀ r ∈ rs, r.pathMatches uri → r.lists method = false := by
  unfold reference
  cases hfind : rs.findIdx? fun r => r.pathMatches uri && r.lists method with
  | none =>
    have hnone : ∀ r ∈ rs, r.pathMatches uri → r.lists method = false := by
      intro r hr hmatches
      simpa [hmatches] using List.findIdx?_eq_none_iff.mp hfind r hr
    simp only [List.any_eq_true]
    split
    case isTrue h => exact ⟨fun _ => ⟨h, hnone⟩, fun _ => rfl⟩
    case isFalse h => exact ⟨fun h' => (nomatch h'), fun h' => absurd h'.1 h⟩
  | some i =>
    obtain ⟨hi, hp, -⟩ := List.findIdx?_eq_some_iff_getElem.mp hfind
    simp only [Bool.and_eq_true] at hp
    constructor
    · intro h
      contradiction
    · rintro ⟨-, hall⟩
      have hlists := hall _ (List.getElem_mem hi) hp.1
      rw [hp.2] at hlists
      contradiction

/-- A route that no earlier one of the path precedes is the reference's choice
exactly if it fits. -/
theorem reference_eq_invoke_iff (hbefore : ∀ r ∈ before, Registration.pathMatches r uri = false)
    (r : Registration) (after : List Registration) (method : Bytes) :
    reference (before ++ r :: after) uri method = .invoke before.length ↔
      r.pathMatches uri ∧ r.lists method := by
  have hnone : before.findIdx? (fun r => r.pathMatches uri && r.lists method) = none := by
    rw [List.findIdx?_eq_none_iff]
    intro r hr
    rw [hbefore r hr, Bool.false_and]
  unfold reference
  rw [List.findIdx?_append, hnone, Option.none_or, List.findIdx?_cons]
  cases hfits : r.pathMatches uri && r.lists method with
  | true =>
    rw [if_pos rfl, Option.map_some, Nat.zero_add]
    simpa using hfits
  | false =>
    have hnot : ¬ (r.pathMatches uri ∧ r.lists method) := by simpa using hfits
    refine iff_of_false (fun h => ?_) hnot
    cases hafter : after.findIdx? fun r => r.pathMatches uri && r.lists method with
    | none =>
      simp only [hafter, if_neg Bool.false_ne_true, Option.map_none] at h
      split at h <;> contradiction
    | some j =>
      simp only [hafter, if_neg Bool.false_ne_true, Option.map_some, Choice.invoke.injEq] at h
      omega

-- ---------------------------------------------------------------------------
-- The server's choice
-- ---------------------------------------------------------------------------

theorem choice_append (h : ∀ call ∈ calls, choiceOf call = none) (rest : List Call) :
    choice (calls ++ rest) = choice rest := by
  rw [choice, List.findSome?_append, List.findSome?_eq_none_iff.mpr h, Option.none_or, choice]

theorem choiceOf_parse (h : (parseHttpRequest env text n).request = some request) :
    ∀ call ∈ (parseHttpRequest env text n).calls, choiceOf call = none := by
  obtain ⟨calls, heq, hcalls⟩ := parseHttpRequest_calls h
  rw [heq]
  simp only [List.forall_mem_cons]
  refine ⟨rfl, rfl, fun call hcall => ?_⟩
  exact Call.forall_isReceive (P := fun call => choiceOf call = none) (fun _ => rfl) (fun _ => rfl) call
    (hcalls call hcall)

theorem choice_servePublic (env : Env) (request : HttpRequest) (filePath : Bytes) :
    choice (servePublic env request filePath).calls = some .publicFile := by
  unfold servePublic
  split
  · rfl
  split
  · split <;> rfl
  · rfl

theorem choice_serveRoute (request : HttpRequest) (i : Nat) (route : HttpRoute)
    (params : StringMap) :
    choice (serveRoute request i route params).calls =
      some (if (strstr route.method request.methodName).isSome then .invoke i
        else .methodNotAllowed) := by
  unfold serveRoute isRequestMethodAllowed
  split <;> rfl

theorem choice_httpServerCallback (hparsed : (parseHttpRequest env text n).request = some request)
    (hchecked : checkRequest env.config request = .ok checked) (server : HttpServer) :
    choice (httpServerCallback env server text n).calls =
      (isRouteExists server.httpRoutes checked.uriText createStringMap).map fun
        | (none, _) => .publicFile
        | (some (i, route), _) =>
          if (strstr route.method checked.methodName).isSome then .invoke i else .methodNotAllowed := by
  have hparse := choiceOf_parse hparsed
  simp only [httpServerCallback, hparsed, hchecked, Run.after_calls]
  rw [choice_append hparse]
  unfold serveRequest
  split
  case h_1 h =>
    rw [h]
    rfl
  case h_2 i route params h =>
    rw [h, Run.after_calls, choice_append (by simp [choiceOf]), choice_serveRoute]
    rfl
  case h_3 params h =>
    rw [h, Run.after_calls, choice_append (by simp [choiceOf]), choice_servePublic]
    rfl

/-- The server's choice for a request that passes its checks is the reference's
exactly where the first route of the path decides. -/
theorem routes_iff (hroutes : run register [] rs = some server.httpRoutes)
    (hparsed : (parseHttpRequest env text n).request = some request)
    (hchecked : checkRequest env.config request = .ok checked) :
    choice (httpServerCallback env server text n).calls =
        some (reference rs checked.uriText checked.methodName) ↔
      Decisive rs checked.uriText checked.methodName := by
  rw [choice_httpServerCallback hparsed hchecked, Decisive]
  generalize checked.uriText = uri, checked.methodName = method
  rcases isRouteExists_found hroutes uri createStringMap with
    ⟨hlong, hnone⟩ | ⟨hfits, found, params, hsome, hfound⟩
  · rw [hnone]
    exact iff_of_false (fun h => nomatch h) fun h => absurd h.1 (Nat.not_le_of_lt hlong)
  rw [hsome, Option.map_some, Option.some.injEq, and_iff_right hfits]
  rcases found_cases hfound with ⟨rfl, hnot⟩ | ⟨earlier, r, later, rfl, rfl, hstops, hnot⟩
  · rw [List.find?_eq_none.mpr (by simpa using hnot)]
    exact iff_of_true
      (reference_eq_publicFile (fun r hr => pathMatches_of_not_stops hfits (hnot r hr)) method).symm
      (by simp)
  · have hfirst : (earlier ++ r :: later).find? (·.stops uri) = some r :=
      List.find?_eq_some_iff_append.mpr ⟨hstops, earlier, later, rfl, by simpa using hnot⟩
    have hearlier : ∀ r ∈ earlier, r.pathMatches uri = false := fun r hr =>
      pathMatches_of_not_stops hfits (hnot r hr)
    rw [hfirst, eq_comm]
    simp only [Option.mem_some_iff, forall_eq']
    split
    case isTrue hallowed =>
      have hmethod : (strstr r.method method).isSome := hallowed
      rw [if_pos hmethod, reference_eq_invoke_iff hearlier, pathMatches_iff r hfits]
      exact and_congr_left' (and_iff_right hstops)
    case isFalse hrefused =>
      have hmethod : ¬ (strstr r.method method).isSome := hrefused
      rw [if_neg hmethod, reference_eq_methodNotAllowed_iff]

-- ---------------------------------------------------------------------------
-- One path, two methods
-- ---------------------------------------------------------------------------

def twoMethods : List Registration :=
  [⟨bytes "GET", bytes "/nodes", callbackHome⟩, ⟨bytes "POST", bytes "/nodes", callbackAbout⟩]

def sampleServer : HttpServer := ⟨bytes "/srv/web", twoMethods.map Registration.stored⟩

theorem run_twoMethods : run register [] twoMethods = some sampleServer.httpRoutes := rfl

def getRequest : Bytes := bytes "GET /nodes HTTP/1.1\r\n\r\n"

def postRequest : Bytes := bytes "POST /nodes HTTP/1.1\r\n\r\n"

instance (rs : List Registration) (uri method : Bytes) : Decidable (Decisive rs uri method) :=
  inferInstanceAs (Decidable (_ ∧ _))

theorem routes_getRequest :
    ∃ request checked, (parseHttpRequest .ok getRequest 23).request = some request ∧
      checkRequest Env.ok.config request = .ok checked ∧
      choice (httpServerCallback .ok sampleServer getRequest 23).calls =
        some (reference twoMethods checked.uriText checked.methodName) := by
  refine ⟨_, _, rfl, rfl, ?_⟩
  exact (routes_iff run_twoMethods rfl rfl).mpr (by decide +kernel)

/-- The second registration of the path is never reached. -/
theorem not_routes_postRequest :
    ∃ request checked, run register [] twoMethods = some sampleServer.httpRoutes ∧
      (parseHttpRequest .ok postRequest 24).request = some request ∧
      checkRequest Env.ok.config request = .ok checked ∧
      choice (httpServerCallback .ok sampleServer postRequest 24).calls = some .methodNotAllowed ∧
      reference twoMethods checked.uriText checked.methodName = .invoke 1 := by
  refine ⟨_, _, run_twoMethods, rfl, rfl, ?_, ?_⟩
  · decide +kernel
  · decide +kernel

end GeoNS.Http.Routing
