import GeoNS.StrMap
import GeoNS.Tokens
import GeoNS.Http.OneAnswer
import GeoNS.Http.Routing

/-!
# Matching a path

The route that `is_route_exists` returns for a path, the parameters it leaves in
the map, and the array it stores the path's segments in.
-/

namespace GeoNS.Http.Matching

open CString Runs Routing

-- ---------------------------------------------------------------------------
-- One attempt
-- ---------------------------------------------------------------------------

def paramNames (rsegs : List RouteSegment) : List Bytes :=
  (rsegs.filter (·.isParametric)).map (·.value)

def boundNames : List RouteSegment → List Bytes → List Bytes
  | rseg :: rsegs, seg :: segs =>
    if rseg.isParametric then rseg.value :: boundNames rsegs segs
    else if rseg.value = seg then boundNames rsegs segs
    else []
  | _, _ => []

theorem keys_matchSegments (rsegs : List RouteSegment) (segs : List Bytes) (params : StringMap)
    (name : Bytes) : name ∈ AssocMap.keys (matchSegments rsegs segs params).2 ↔
      name ∈ boundNames rsegs segs ∨ name ∈ AssocMap.keys params := by
  induction rsegs, segs, params using matchSegments.induct with
  | case1 rsegs params => cases rsegs <;> simp [matchSegments, boundNames]
  | case2 seg segs params => simp [matchSegments, boundNames]
  | case3 rseg rsegs seg segs params hparam ih =>
    rw [matchSegments, if_pos hparam, ih, boundNames, if_pos hparam, StrMap.stringMapPut_eq,
      AssocMap.mem_keys_put, List.mem_cons]
    tauto
  | case4 rseg rsegs segs params hparam ih =>
    simp [matchSegments, boundNames, hparam, ih]
  | case5 rseg rsegs seg segs params hparam hne =>
    simp [matchSegments, boundNames, hparam, hne]

theorem paramNames_cons (rseg : RouteSegment) (rsegs : List RouteSegment) :
    paramNames (rseg :: rsegs) =
      if rseg.isParametric then rseg.value :: paramNames rsegs else paramNames rsegs := by
  cases h : rseg.isParametric <;> simp [paramNames, h]

theorem boundNames_subset (h : name ∈ boundNames rsegs segs) : name ∈ paramNames rsegs := by
  induction rsegs, segs using boundNames.induct with
  | case1 rseg rsegs seg segs hparam ih =>
    rw [boundNames, if_pos hparam] at h
    rw [paramNames_cons, if_pos hparam]
    rcases List.mem_cons.mp h with rfl | h
    · exact List.mem_cons_self
    · exact List.mem_cons_of_mem _ (ih h)
  | case2 rseg rsegs segs hparam ih =>
    simp only [boundNames, hparam, if_true] at h
    rw [paramNames_cons, if_neg hparam]
    exact ih h
  | case3 rseg rsegs seg segs hparam hne => simp [boundNames, hparam, hne] at h
  | case4 rsegs segs hnot => simp [boundNames] at h

theorem get_matchSegments_of_notMem (params : StringMap) (h : name ∉ paramNames rsegs) :
    stringMapGet (matchSegments rsegs segs params).2 name = stringMapGet params name := by
  induction rsegs, segs, params using matchSegments.induct with
  | case1 rsegs params => cases rsegs <;> rfl
  | case2 seg segs params => rfl
  | case3 rseg rsegs seg segs params hparam ih =>
    rw [paramNames_cons, if_pos hparam] at h
    obtain ⟨hname, hrest⟩ := List.ne_and_not_mem_of_not_mem_cons h
    rw [matchSegments, if_pos hparam, ih hrest]
    have hget := AssocMap.get_put params rseg.value seg name
    rw [← StrMap.stringMapPut_eq, if_neg hname] at hget
    exact hget
  | case4 rseg rsegs segs params hparam ih =>
    rw [paramNames_cons, if_neg hparam] at h
    simp [matchSegments, hparam, ih h]
  | case5 rseg rsegs seg segs params hparam hne => simp [matchSegments, hparam, hne]

theorem get_matchSegments (params : StringMap) (hmatched : (matchSegments rsegs segs params).1 = true)
    (hnodup : (paramNames rsegs).Nodup) (hj : rsegs[j]? = some ⟨name, true⟩) (hlt : j < segs.length) :
    stringMapGet (matchSegments rsegs segs params).2 name = segs[j]? := by
  induction rsegs, segs, params using matchSegments.induct generalizing j with
  | case1 rsegs params => exact absurd hlt (Nat.not_lt_zero j)
  | case2 seg segs params => cases hj
  | case3 rseg rsegs seg segs params hparam ih =>
    rw [paramNames_cons, if_pos hparam, List.nodup_cons] at hnodup
    rw [matchSegments, if_pos hparam] at hmatched ⊢
    cases j with
    | zero =>
      obtain rfl := Option.some.inj hj
      rw [get_matchSegments_of_notMem _ hnodup.1]
      have hget := AssocMap.get_put params name seg name
      rw [← StrMap.stringMapPut_eq, if_pos rfl] at hget
      exact hget
    | succ j => exact ih hmatched hnodup.2 hj (Nat.lt_of_succ_lt_succ hlt)
  | case4 rseg rsegs segs params hparam ih =>
    rw [paramNames_cons, if_neg hparam] at hnodup
    rw [matchSegments, if_neg hparam, if_pos rfl] at hmatched ⊢
    cases j with
    | zero =>
      obtain rfl := Option.some.inj hj
      exact absurd rfl hparam
    | succ j => exact ih hmatched hnodup hj (Nat.lt_of_succ_lt_succ hlt)
  | case5 rseg rsegs seg segs params hparam hne => simp [matchSegments, hparam, hne] at hmatched

-- ---------------------------------------------------------------------------
-- The whole search
-- ---------------------------------------------------------------------------

def tried (segs : List Bytes) (routes : List HttpRoute) : List HttpRoute :=
  routes.takeWhile fun route => !stopsAt segs route

def leftovers (segs : List Bytes) (route : HttpRoute) : List Bytes :=
  if route.segmentSize = UInt16.ofNat segs.length then boundNames route.segment segs else []

/-- The parameters are those of the routes that were tried, and of the attempt
that succeeds on top of them. -/
structure Searched (segs : List Bytes) (routes : List HttpRoute) (params params₀ : StringMap)
    (result : Option (Nat × HttpRoute) × StringMap) : Prop where
  keys : ∀ name, name ∈ AssocMap.keys params₀ ↔
    name ∈ AssocMap.keys params ∨ ∃ route ∈ tried segs routes, name ∈ leftovers segs route
  last : result.2 = match result.1 with
    | none => params₀
    | some (_, route) => (matchSegments route.segment segs params₀).2

theorem tried_cons (segs : List Bytes) (route : HttpRoute) (routes : List HttpRoute) :
    tried segs (route :: routes) = if stopsAt segs route then [] else route :: tried segs routes := by
  cases h : stopsAt segs route <;> simp [tried, h]

theorem findRoute_searched (segs : List Bytes) (i : Nat) (routes : List HttpRoute) (params : StringMap) :
    ∃ params₀, Searched segs routes params params₀ (findRoute segs i routes params) := by
  induction routes generalizing i params with
  | nil => exact ⟨params, by simp [tried], rfl⟩
  | cons route routes ih =>
    have hmatch := matchSegments_fst route.segment segs params
    have hkeys := keys_matchSegments route.segment segs params
    unfold findRoute
    split
    case isTrue hsize =>
      split
      case h_1 params' heq =>
        have hstops : stopsAt segs route := by simp [stopsAt, hsize, ← hmatch, heq]
        refine ⟨params, ?_, (congrArg Prod.snd heq).symm⟩
        simp [tried_cons, hstops]
      case h_2 params' heq =>
        have hstops : stopsAt segs route = false := by simp [stopsAt, ← hmatch, heq]
        obtain ⟨params₀, hall, hlast⟩ := ih (i + 1) params'
        refine ⟨params₀, fun name => ?_, hlast⟩
        have hname := hkeys name
        rw [heq] at hname
        rw [hall, hname, tried_cons, if_neg (by simp [hstops])]
        simp only [List.mem_cons, exists_eq_or_imp, leftovers, if_pos hsize]
        tauto
    case isFalse hsize =>
      have hstops : stopsAt segs route = false := by simp [stopsAt, hsize]
      obtain ⟨params₀, hall, hlast⟩ := ih (i + 1) params
      refine ⟨params₀, fun name => ?_, hlast⟩
      rw [hall, tried_cons, if_neg (by simp [hstops])]
      simp [leftovers, hsize]

theorem boundNames_nil (rsegs : List RouteSegment) : boundNames rsegs [] = [] := by
  cases rsegs <;> rfl

/-- What `is_route_exists` returns for a path that fits its array. -/
theorem isRouteExists_searched (h : run register [] rs = some routes) (uri : Bytes) (params : StringMap)
    (hfits : (strtok 47 uri).length ≤ maxRequestSegments) :
    ∃ params₀ result, isRouteExists routes uri params = some result ∧
      Found (strtok 47 uri) 0 (rs.map Registration.stored) result.1 ∧
      Searched (strtok 47 uri) (rs.map Registration.stored) params params₀ result := by
  obtain ⟨rfl, hrooted⟩ := run_register h
  rw [List.nil_append]
  unfold isRouteExists
  split
  case isTrue hroot =>
    have hsegs : strtok 47 uri = [] := by rw [hroot]; decide
    rw [hsegs]
    refine ⟨params, _, rfl, findRootRoute_found 0 hrooted, ?_, ?_⟩
    · simp [leftovers, boundNames_nil]
    · split
      · rfl
      · rename_i route _
        cases route.segment <;> rfl
  case isFalse hroot =>
    obtain ⟨params₀, hsearched⟩ :=
      findRoute_searched (strtok 47 uri) 0 (rs.map Registration.stored) params
    exact ⟨params₀, _, if_pos hfits, findRoute_found _ 0 _ params, hsearched⟩

-- ---------------------------------------------------------------------------
-- The specification
-- ---------------------------------------------------------------------------

def specSegment (seg : Bytes) : RouteSegment :=
  if 2 ≤ seg.length ∧ seg.head? = some 123 ∧ seg.getLast? = some 125 then ⟨seg.tail.dropLast, true⟩
  else ⟨seg, false⟩

def pattern (r : Registration) : List RouteSegment := (strtok 47 r.route).map specSegment

/-- The path has the pattern's length, and its literals. -/
def Fits (uri : Bytes) (r : Registration) : Prop :=
  List.Forall₂ (fun rseg seg => rseg.isParametric = false → rseg.value = seg)
    (pattern r) (strtok 47 uri)

def FirstFit (rs : List Registration) (uri : Bytes) : Option (Nat × HttpRoute) → Prop
  | none => ∀ r ∈ rs, ¬ Fits uri r
  | some (i, route) => ∃ r, rs[i]? = some r ∧ route = r.stored ∧ Fits uri r ∧
      ∀ earlier ∈ rs.take i, ¬ Fits uri earlier

structure Matched (rs : List Registration) (uri : Bytes)
    (result : Option (Nat × HttpRoute) × StringMap) : Prop where
  first : FirstFit rs uri result.1
  bound : ∀ i route r, result.1 = some (i, route) → rs[i]? = some r → (paramNames (pattern r)).Nodup →
    ∀ (j : Nat) name, (pattern r)[j]? = some ⟨name, true⟩ →
      ∃ seg, (strtok 47 uri)[j]? = some seg ∧ stringMapGet result.2 name = some seg
  root : uri ∈ [bytes "/", bytes "//", []] → ∀ r ∈ rs, (Fits uri r ↔ r.route = bytes "/")

theorem createRouteSegment_eq (h : seg.length < 65536) : createRouteSegment seg = specSegment seg := by
  have hlength : (UInt16.ofNat seg.length).toNat = seg.length := by
    rw [UInt16.toNat_ofNat']
    exact Nat.mod_eq_of_lt h
  have hname : seg.tail.take (seg.length - 2) = seg.tail.dropLast := by
    rw [List.dropLast_eq_take, List.length_tail]
    rfl
  simp only [createRouteSegment, specSegment, hlength, hname, List.getLast?_eq_getElem?]

theorem segments_eq {r : Registration} (h : r.route.length < 65536) : r.segments = pattern r := by
  refine List.map_congr_left fun seg hseg => createRouteSegment_eq ?_
  exact Nat.lt_of_le_of_lt (length_token_le hseg) h

theorem length_pattern_lt {r : Registration} (h : r.route.length < 65536) :
    (pattern r).length < 65536 := by
  have hcount := length_strtok_le 47 r.route
  rw [pattern, List.length_map]
  omega

theorem patternMatches_iff (rsegs : List RouteSegment) (segs : List Bytes) :
    patternMatches rsegs segs ↔
      List.Forall₂ (fun rseg seg => rseg.isParametric = false → rseg.value = seg) rsegs segs := by
  induction rsegs, segs using patternMatches.induct with
  | case1 => simp [patternMatches]
  | case2 rseg rsegs seg segs ih =>
    rw [List.forall₂_cons, ← ih]
    cases h : rseg.isParametric <;> simp [patternMatches, RouteSegment.accepts, h]
  | case3 rsegs segs hnil hcons =>
    refine iff_of_false (by simp [patternMatches]) fun h => ?_
    cases h with
    | nil => exact hnil rfl rfl
    | cons => exact hcons _ _ _ _ rfl rfl

theorem pathMatches_iff_fits {r : Registration} (h : r.route.length < 65536) (uri : Bytes) :
    r.pathMatches uri ↔ Fits uri r := by
  rw [Registration.pathMatches, segments_eq h]
  exact patternMatches_iff _ _

theorem stops_iff_fits {r : Registration} (h : r.route.length < 65536)
    (hfits : (strtok 47 uri).length ≤ maxRequestSegments) : r.stops uri ↔ Fits uri r := by
  have hiff := pathMatches_iff r hfits
  rw [segments_eq h] at hiff
  rw [← pathMatches_iff_fits h, hiff]
  exact (and_iff_left (length_pattern_lt h)).symm

theorem firstFit_of_found {rs : List Registration} (hshort : ∀ r ∈ rs, r.route.length < 65536)
    (hfits : (strtok 47 uri).length ≤ maxRequestSegments)
    (h : Found (strtok 47 uri) 0 (rs.map Registration.stored) found) : FirstFit rs uri found := by
  have hnot : ∀ r ∈ rs, r.stops uri = false → ¬ Fits uri r := fun r hr hstops => by
    rw [← stops_iff_fits (hshort r hr) hfits, hstops]
    exact Bool.false_ne_true
  rcases found_cases h with ⟨rfl, hnone⟩ | ⟨earlier, r, later, rfl, rfl, hstops, hearlier⟩
  · exact fun r hr => hnot r hr (hnone r hr)
  · refine ⟨r, by simp, rfl, (stops_iff_fits (hshort r (by simp)) hfits).mp hstops, fun r' hr' => ?_⟩
    rw [List.take_left] at hr'
    exact hnot r' (by simp [hr']) (hearlier r' hr')

theorem stored_segment {r : Registration} (h : r.route.length < 65536) (hne : pattern r ≠ []) :
    r.stored.segment = pattern r := by
  unfold Registration.stored
  split
  case isTrue hroot =>
    refine absurd ?_ hne
    rw [pattern, hroot]
    decide
  case isFalse => exact segments_eq h

theorem fits_root_iff {r : Registration} (hrooted : r.Rooted) (h : r.route.length < 65536)
    (hsegs : strtok 47 uri = []) : Fits uri r ↔ r.route = bytes "/" := by
  rw [Fits, hsegs, List.forall₂_nil_right_iff]
  constructor
  · intro hnil
    refine hrooted ?_
    rw [segments_eq h, hnil]
    rfl
  · intro hroot
    rw [pattern, hroot]
    decide

theorem isRouteExists_matched (hroutes : run register [] rs = some routes)
    (hshort : ∀ r ∈ rs, r.route.length < 65536) (uri : Bytes)
    (hfits : (strtok 47 uri).length ≤ maxRequestSegments) (params : StringMap) :
    ∃ result, isRouteExists routes uri params = some result ∧ Matched rs uri result := by
  obtain ⟨params₀, result, heq, hfound, hsearched⟩ := isRouteExists_searched hroutes uri params hfits
  have hfirst := firstFit_of_found hshort hfits hfound
  refine ⟨result, heq, hfirst, ?_, ?_⟩
  · intro i route r hresult hr hnodup j name hj
    rw [hresult] at hfirst
    obtain ⟨r', hr', rfl, hfit, -⟩ := hfirst
    obtain rfl : r = r' := Option.some.inj (hr.symm.trans hr')
    have hmem := List.mem_of_getElem? hr
    have hlength := hfit.length_eq
    have hlt : j < (strtok 47 uri).length := by
      rw [← hlength]
      exact (List.getElem?_eq_some_iff.mp hj).1
    have hsegment : r.stored.segment = pattern r :=
      stored_segment (hshort r hmem) fun hnil => by simp [hnil] at hj
    have hmatched : (matchSegments (pattern r) (strtok 47 uri) params₀).1 = true := by
      rw [matchSegments_fst, ← hlength, List.take_length]
      exact (patternMatches_iff _ _).mpr hfit
    have hlast := hsearched.last
    simp only [hresult, hsegment] at hlast
    refine ⟨_, List.getElem?_eq_getElem hlt, ?_⟩
    rw [hlast, get_matchSegments params₀ hmatched hnodup hj hlt]
    exact List.getElem?_eq_getElem hlt
  · intro hroot r hr
    have hsegs : strtok 47 uri = [] := by
      simp only [List.mem_cons, List.not_mem_nil, or_false] at hroot
      rcases hroot with rfl | rfl | rfl <;> decide
    exact fits_root_iff ((run_register hroutes).2 r hr) (hshort r hr) hsegs

-- ---------------------------------------------------------------------------
-- A table with a parameter
-- ---------------------------------------------------------------------------

def nodeRoutes : List Registration :=
  [⟨bytes "GET", bytes "/", callbackHome⟩, ⟨bytes "GET", bytes "/nodes/{id}", callbackAbout⟩,
    ⟨bytes "GET", bytes "/{kind}/{id}", callbackAbout⟩]

theorem run_nodeRoutes :
    run register [] nodeRoutes = some (nodeRoutes.map Registration.stored) := rfl

theorem isRouteExists_matched_nodes :
    ∃ result, isRouteExists (nodeRoutes.map Registration.stored) (bytes "/nodes/7") [] = some result ∧
      Matched nodeRoutes (bytes "/nodes/7") result :=
  isRouteExists_matched run_nodeRoutes (by decide) _ (by decide) []

-- ---------------------------------------------------------------------------
-- What a failed attempt leaves
-- ---------------------------------------------------------------------------

/-- The keys are the parameters of the route that is returned. -/
def NoTrace : Option (Nat × HttpRoute) × StringMap → Prop
  | (none, params) => params = []
  | (some (_, route), params) =>
    ∀ name, name ∈ AssocMap.keys params ↔ name ∈ paramNames route.segment

/-- What the routes tried in vain bind is a parameter of the route that is found
after them; if none is found, they bind nothing. -/
def Covered (segs : List Bytes) (before : List Registration) : Option Registration → Prop
  | none => ∀ r ∈ before, leftovers segs r.stored = []
  | some found =>
    (∀ r ∈ before, ∀ name ∈ leftovers segs r.stored, name ∈ paramNames found.stored.segment) ∧
      ∀ name ∈ paramNames found.stored.segment, name ∈ boundNames found.stored.segment segs ∨
        ∃ r ∈ before, name ∈ leftovers segs r.stored

instance (segs : List Bytes) (before : List Registration) :
    (found : Option Registration) → Decidable (Covered segs before found)
  | none => inferInstanceAs (Decidable (∀ r ∈ before, leftovers segs r.stored = []))
  | some _ => inferInstanceAs (Decidable (_ ∧ _))

def Traceless (rs : List Registration) (uri : Bytes) : Prop :=
  (strtok 47 uri).length ≤ maxRequestSegments ∧
    Covered (strtok 47 uri) (rs.takeWhile fun r => !r.stops uri) (rs.find? (·.stops uri))

instance (rs : List Registration) (uri : Bytes) : Decidable (Traceless rs uri) :=
  inferInstanceAs (Decidable (_ ∧ _))

theorem tried_stored (rs : List Registration) (uri : Bytes) :
    tried (strtok 47 uri) (rs.map Registration.stored) =
      (rs.takeWhile fun r => !r.stops uri).map Registration.stored := by
  rw [tried, List.takeWhile_map]
  rfl

theorem eq_nil_iff_keys (params : StringMap) :
    params = [] ↔ ∀ name, name ∉ AssocMap.keys params := by
  rw [← List.eq_nil_iff_forall_not_mem, AssocMap.keys, List.map_eq_nil_iff]

def pairRoutes : List Registration :=
  [⟨bytes "GET", bytes "/{a}/x", callbackHome⟩, ⟨bytes "GET", bytes "/{b}/y", callbackAbout⟩]

/-- The indices of `req_segments` that are written for a URI; `req_count` is an
`unsigned short`. -/
def segmentWrites (uri : Bytes) : List Nat :=
  if uri = bytes "/" then [] else write 0 (strtok 47 uri)
where
  write : UInt16 → List Bytes → List Nat
    | _, [] => []
    | reqCount, _ :: segs => reqCount.toNat :: write (reqCount + 1) segs

theorem write_eq (reqCount : UInt16) (segs : List Bytes) : segmentWrites.write reqCount segs =
    (List.range segs.length).map fun k => (reqCount + UInt16.ofNat k).toNat := by
  induction segs generalizing reqCount with
  | nil => rfl
  | cons seg segs ih =>
    rw [segmentWrites.write, ih, List.length_cons, List.range_succ_eq_map, List.map_cons, List.map_map]
    congr 1
    · simp
    · refine List.map_congr_left fun k _ => ?_
      have hnext : reqCount + 1 + UInt16.ofNat k = reqCount + UInt16.ofNat (k + 1) := by
        rw [UInt16.ofNat_add, UInt16.add_assoc, UInt16.add_comm 1]
        rfl
      rw [Function.comp_apply, hnext]

theorem mem_segmentWrites (uri : Bytes) (i : Nat) :
    i ∈ segmentWrites uri ↔ ∃ k < (strtok 47 uri).length, k % 65536 = i := by
  have hwrite : i ∈ segmentWrites.write 0 (strtok 47 uri) ↔
      ∃ k < (strtok 47 uri).length, k % 65536 = i := by
    simp [write_eq]
  unfold segmentWrites
  split
  case isTrue hroot =>
    have hsegs : strtok 47 uri = [] := by rw [hroot]; decide
    simp [hsegs]
  case isFalse => exact hwrite

theorem exists_write_iff (uri : Bytes) : (∃ i ∈ segmentWrites uri, maxRequestSegments ≤ i) ↔
    maxRequestSegments < (strtok 47 uri).length := by
  simp only [mem_segmentWrites, maxRequestSegments]
  constructor
  · rintro ⟨i, ⟨k, hk, rfl⟩, hi⟩
    omega
  · intro hlong
    exact ⟨128, ⟨128, hlong, rfl⟩, Nat.le_refl 128⟩

theorem isRouteExists_eq_none_iff_write (routes : List HttpRoute) (uri : Bytes) (params : StringMap) :
    isRouteExists routes uri params = none ↔ ∃ i ∈ segmentWrites uri, maxRequestSegments ≤ i := by
  rw [isRouteExists_eq_none_iff, exists_write_iff]

/-- The writes stay in the array exactly for a URI of at most 128 segments. -/
theorem segmentWrites_lt_iff (uri : Bytes) :
    (∀ i ∈ segmentWrites uri, i < maxRequestSegments) ↔
      (strtok 47 uri).length ≤ maxRequestSegments := by
  have hiff := not_congr (exists_write_iff uri)
  push Not at hiff
  exact hiff

theorem not_segmentWrites_longUri :
    ∃ request, (parseHttpRequest .ok longUri 275).request = some request ∧
      request.uriText.length = 258 ∧ 128 ∈ segmentWrites request.uriText := by
  have hparsed : (parseHttpRequest .ok longUri 275).request.isSome := by decide +kernel
  refine ⟨_, (Option.some_get hparsed).symm, ?_, ?_⟩
  · decide +kernel +revert
  · decide +kernel +revert

end GeoNS.Http.Matching
