import GeoNS.StrMapBlocks
import GeoNS.Http.Server

/-!
# What a routed request holds

`is_route_exists` copies the URI and its segments, and puts the parameters of the
routes it tries into the request's map. A callback gets copies from the map. All of it
is freed before `http_server_callback` goes on to the public folder, or returns.
-/

namespace GeoNS.Http.RouteMemory

open CString Holdings Runs StrMap StrMap.Blocks

inductive Token
  | map (b : Nat)
  | copyUri
  | segment (i : Nat)
  deriving DecidableEq, Repr

abbrev Acts := List (Act Token)

def since (m m' : Memory) : Acts := (m'.acts.drop m.acts.length).map (Act.map Token.map)

-- ---------------------------------------------------------------------------
-- The search
-- ---------------------------------------------------------------------------

def matchSegments : List RouteSegment → List Bytes → Memory → Bool × Memory
  | _, [], m => (true, m)
  | [], _ :: _, m => (false, m)
  | rseg :: rsegs, seg :: segs, m =>
    if rseg.isParametric then matchSegments rsegs segs (Blocks.stringMapPut m rseg.value seg)
    else if rseg.value = seg then matchSegments rsegs segs m
    else (false, m)

def findRoute (segments : List Bytes) : (i : Nat) → List HttpRoute → Memory → Option (Nat × HttpRoute) × Memory
  | _, [], m => (none, m)
  | i, route :: routes, m =>
    if route.segmentSize = UInt16.ofNat segments.length then
      match matchSegments route.segment segments m with
      | (true, m) => (some (i, route), m)
      | (false, m) => findRoute segments (i + 1) routes m
    else findRoute segments (i + 1) routes m

structure Lookup where
  found : Option (Nat × HttpRoute)
  memory : Memory
  acts : Acts

/-- The segments are copied before the search and freed after it. -/
def isRouteExists (routes : List HttpRoute) (uri : Bytes) (m : Memory) : Option Lookup :=
  if uri = bytes "/" then some ⟨findRootRoute 0 routes, m, []⟩
  else
    let segments := strtok 47 uri
    if segments.length ≤ maxRequestSegments then
      let (found, m') := findRoute segments 0 routes m
      let copies := (List.range segments.length).map Token.segment
      some ⟨found, m', [.acquire .copyUri] ++ copies.map .acquire ++ since m m' ++ copies.map .release ++
        [.release .copyUri]⟩
    else none

-- ---------------------------------------------------------------------------
-- The request
-- ---------------------------------------------------------------------------

/-- A callback that gets the values of these keys, and frees them: `test` gets
`username`, the others none. Without the key there is nothing to free. -/
def getAll (keys : List Bytes) (m : Memory) : Memory := keys.foldl Blocks.stringMapContains m

/-- The map behind the callback. `allowed` tells whether the method is, and `keys` what
the callback gets. -/
def Lookup.called (l : Lookup) (allowed : HttpRoute → Bool) (keys : HttpRoute → List Bytes) : Memory :=
  match l.found with
  | some (_, route) => if allowed route then getAll (keys route) l.memory else l.memory
  | none => l.memory

def routed (routes : List HttpRoute) (uri : Bytes) (allowed : HttpRoute → Bool) (keys : HttpRoute → List Bytes) :
    Option (Lookup × Acts) :=
  (isRouteExists routes uri Blocks.createStringMap).map fun l =>
    let m := l.called allowed keys
    (l, [.acquire (.map 0)] ++ l.acts ++ since l.memory m ++ (stringMapFree m).map (Act.map Token.map))

-- ---------------------------------------------------------------------------
-- The search is that of the routes
-- ---------------------------------------------------------------------------

structure Follows (m m' : Memory) (params : StringMap) : Prop where
  puts : ∃ calls : List Blocks.Call, m' = calls.foldl Blocks.call m ∧ ∀ c ∈ calls, ∃ key value, c = .put key value
  nodes : pairs m'.nodes = params

theorem Follows.refl (h : pairs m.nodes = params) : Follows m m params := ⟨⟨[], rfl, by simp⟩, h⟩

theorem Follows.put (h : Follows m m' params) (key value : Bytes) :
    Follows m (Blocks.stringMapPut m' key value) (Http.stringMapPut params key value) := by
  obtain ⟨⟨calls, rfl, hputs⟩, hnodes⟩ := h
  refine ⟨⟨calls ++ [.put key value], by simp [Blocks.call], ?_⟩, ?_⟩
  · intro c hc
    rcases List.mem_append.mp hc with hc | hc
    · exact hputs c hc
    · exact ⟨key, value, List.mem_singleton.mp hc⟩
  · exact pairs_stringMapPut _ ⟨params, 0⟩ hnodes key value

theorem follows_matchSegments (rsegs : List RouteSegment) (segs : List Bytes) (h : Follows m m' params) :
    (matchSegments rsegs segs m').1 = (Http.matchSegments rsegs segs params).1 ∧
      Follows m (matchSegments rsegs segs m').2 (Http.matchSegments rsegs segs params).2 := by
  induction segs generalizing rsegs m' params with
  | nil => cases rsegs <;> exact ⟨rfl, h⟩
  | cons seg segs ih =>
    cases rsegs with
    | nil => exact ⟨rfl, h⟩
    | cons rseg rsegs =>
      simp only [matchSegments, Http.matchSegments]
      split
      · exact ih rsegs (h.put _ _)
      · split
        · exact ih rsegs h
        · exact ⟨rfl, h⟩

theorem follows_findRoute (segs : List Bytes) (i : Nat) (routes : List HttpRoute) (h : Follows m m' params) :
    (findRoute segs i routes m').1 = (Http.findRoute segs i routes params).1 ∧
      Follows m (findRoute segs i routes m').2 (Http.findRoute segs i routes params).2 := by
  induction routes generalizing i m' params with
  | nil => exact ⟨rfl, h⟩
  | cons route routes ih =>
    simp only [findRoute, Http.findRoute]
    split
    · have hcompared := follows_matchSegments route.segment segs h
      revert hcompared
      obtain ⟨matched, next⟩ := matchSegments route.segment segs m'
      obtain ⟨matched', params'⟩ := Http.matchSegments route.segment segs params
      rintro ⟨rfl : matched = matched', hnext⟩
      cases matched with
      | true => exact ⟨rfl, hnext⟩
      | false => exact ih (i + 1) hnext
    · exact ih (i + 1) h

-- ---------------------------------------------------------------------------
-- The ledger
-- ---------------------------------------------------------------------------

def tokens (bs : List Nat) : List Token := bs.map .map

theorem map_injective : Function.Injective Token.map := fun _ _ h => Token.map.inj h

theorem takes_since (m : Memory) (calls : List Blocks.Call) :
    Takes (tokens (m.blocks ++ m.copies)) (since m (calls.foldl Blocks.call m))
      (tokens ((calls.foldl Blocks.call m).blocks ++ (calls.foldl Blocks.call m).copies)) := by
  obtain ⟨k, acts, hstep⟩ := calls_step m calls
  have hacts : since m (calls.foldl Blocks.call m) = acts.map (Act.map Token.map) := by
    rw [since, hstep.log, List.drop_left]
  rw [hacts]
  exact hstep.takes.map map_injective

def Keeps (c : Blocks.Call) : Prop := ∀ m, (Blocks.call m c).copies = m.copies

theorem keeps_put (key value : Bytes) : Keeps (.put key value) := fun m => by
  simp only [Blocks.call, Blocks.stringMapPut]
  split <;> rfl

theorem keeps_contains (key : Bytes) : Keeps (.contains key) := fun m => by
  simp only [Blocks.call, Blocks.stringMapContains]
  split <;> rfl

theorem copies_calls (m : Memory) (calls : List Blocks.Call) (h : ∀ c ∈ calls, Keeps c) :
    (calls.foldl Blocks.call m).copies = m.copies := by
  induction calls generalizing m with
  | nil => rfl
  | cons c calls ih =>
    rw [List.foldl_cons, ih _ fun c hc => h c (List.mem_cons_of_mem _ hc)]
    exact h c List.mem_cons_self m

theorem since_self (m : Memory) : since m m = [] := by simp [since]

theorem isRouteExists_takes (routes : List HttpRoute) (uri : Bytes) (m : Memory) (hcopies : m.copies = [])
    (h : isRouteExists routes uri m = some l) :
    Takes (tokens m.blocks) l.acts (tokens l.memory.blocks) ∧ l.memory.copies = [] := by
  unfold isRouteExists at h
  split at h
  · obtain rfl := Option.some.inj h
    exact ⟨.nil _, hcopies⟩
  · dsimp only at h
    split at h
    · obtain rfl := Option.some.inj h
      obtain ⟨-, ⟨calls, hmemory, hcalls⟩, -⟩ := follows_findRoute (strtok 47 uri) 0 routes (Follows.refl rfl)
      have hcopies' := copies_calls m calls fun c hc => by
        obtain ⟨key, value, rfl⟩ := hcalls c hc
        exact keeps_put key value
      have hputs := takes_since m calls
      rw [hcopies', hcopies, List.append_nil, List.append_nil, ← hmemory] at hputs
      have hlookup := (hputs.during ((List.range (strtok 47 uri).length).map Token.segment)).during [.copyUri]
      exact ⟨by simpa using hlookup, by rw [hmemory, hcopies', hcopies]⟩
    · cases h

theorem getAll_takes (keys : List Bytes) (m : Memory) (hcopies : m.copies = []) :
    Takes (tokens m.blocks) (since m (getAll keys m)) (tokens (getAll keys m).blocks) ∧
      (getAll keys m).copies = [] := by
  have hcalls : getAll keys m = (keys.map Blocks.Call.contains).foldl Blocks.call m := by
    rw [getAll, List.foldl_map]
    rfl
  have hcopies' := copies_calls m (keys.map Blocks.Call.contains) fun c hc => by
    obtain ⟨key, -, rfl⟩ := List.mem_map.mp hc
    exact keeps_contains key
  have hgets := takes_since m (keys.map Blocks.Call.contains)
  rw [hcopies', hcopies, List.append_nil, List.append_nil, ← hcalls] at hgets
  exact ⟨hgets, by rw [hcalls, hcopies', hcopies]⟩

theorem called_takes (l : Lookup) (hcopies : l.memory.copies = []) (allowed : HttpRoute → Bool)
    (keys : HttpRoute → List Bytes) :
    Takes (tokens l.memory.blocks) (since l.memory (l.called allowed keys)) (tokens (l.called allowed keys).blocks) ∧
      (l.called allowed keys).copies = [] := by
  have hsame : Takes (tokens l.memory.blocks) (since l.memory l.memory) (tokens l.memory.blocks) :=
    since_self l.memory ▸ .nil _
  unfold Lookup.called
  split
  · split
    · exact getAll_takes _ l.memory hcopies
    · exact ⟨hsame, hcopies⟩
  · exact ⟨hsame, hcopies⟩

theorem free_takes (m : Memory) (hcopies : m.copies = []) :
    Takes (tokens m.blocks) ((stringMapFree m).map (Act.map Token.map)) [] := by
  have hmap := (takes_stringMapFree m).map map_injective
  rwa [hcopies, List.append_nil] at hmap

theorem isRouteExists_found (routes : List HttpRoute) (uri : Bytes) :
    (Http.isRouteExists routes uri Http.createStringMap = none ∧
        isRouteExists routes uri Blocks.createStringMap = none) ∨
      ∃ l, Http.isRouteExists routes uri Http.createStringMap = some (l.found, pairs l.memory.nodes) ∧
        isRouteExists routes uri Blocks.createStringMap = some l := by
  unfold isRouteExists Http.isRouteExists
  split
  · exact .inr ⟨_, rfl, rfl⟩
  · dsimp only
    split
    · obtain ⟨hfound, -, hnodes⟩ := follows_findRoute (strtok 47 uri) 0 routes
        (Follows.refl (show pairs Blocks.createStringMap.nodes = Http.createStringMap from rfl))
      exact .inr ⟨_, by rw [hfound, hnodes], rfl⟩
    · exact .inl ⟨rfl, rfl⟩

/-- For any routes and any URI with no more segments than there is room for, the lookup
finds the route and the parameters of the table, and nothing of what the request
allocates for them is left, or freed twice, whatever the callback gets. -/
theorem released_of_routed (routes : List HttpRoute) (uri : Bytes) (allowed : HttpRoute → Bool)
    (keys : HttpRoute → List Bytes) :
    (Http.isRouteExists routes uri Http.createStringMap = none ∧ routed routes uri allowed keys = none) ∨
      ∃ l acts, routed routes uri allowed keys = some (l, acts) ∧
        Http.isRouteExists routes uri Http.createStringMap = some (l.found, pairs l.memory.nodes) ∧
        held acts = some [] := by
  rcases isRouteExists_found routes uri with ⟨htable, hnone⟩ | ⟨l, htable, hsome⟩
  · exact .inl ⟨htable, by simp [routed, hnone]⟩
  · obtain ⟨hlookup, hcopies⟩ := isRouteExists_takes routes uri Blocks.createStringMap rfl hsome
    obtain ⟨hcallback, hnone⟩ := called_takes l hcopies allowed keys
    have hcreate : Takes [] [.acquire (.map 0)] (tokens Blocks.createStringMap.blocks) := .acquire _
    have hall := ((hcreate.append hlookup).append hcallback).append (free_takes _ hnone)
    exact .inr ⟨l, _, by rw [routed, hsome]; rfl, htable, hall.run_eq⟩

end GeoNS.Http.RouteMemory
