import GeoNS.Holdings
import GeoNS.Http.RouteTable

/-!
# The life of an HTTP server

What `create_http_server`, the calls of `set_http_route` and `kill_http_server`
acquire and release, whichever of their allocations fail. The clients of the
server's socket are not counted here.
-/

namespace GeoNS.Http.Teardown

open CString LinkedList Runs Holdings Routing RouteTable

/-- A segment's node and its value, and the method of a route, are known by their
numbers. -/
inductive Token
  | server
  | publicDir
  | socketServer
  | socket
  | node (a : Nat)
  | value (a : Nat)
  | method (i : Nat)
  | routeCopy
  | paramName
  deriving DecidableEq, Repr

abbrev Acts := List (Act Token)

-- ---------------------------------------------------------------------------
-- Creation
-- ---------------------------------------------------------------------------

inductive SocketResult
  | negative
  | zero
  | positive
  deriving DecidableEq, Repr

/-- The outcomes of the calls that are made. `publicDir` tells that there is such a
directory, and `listens` that `inet_pton`, `bind` and `listen` all succeed. -/
structure Outcomes where
  publicDir : Bool
  memalloc : Bool
  strdup : Bool
  socketServer : Bool
  socket : SocketResult
  listens : Bool
  deriving DecidableEq, Repr

/-- `kill_socket_server`, with no connections. -/
def killSocketServer (opened : Bool) : Acts :=
  (if opened then [.release .socket] else []) ++ [.release .socketServer]

/-- Only 0 is taken for a failure of `socket`; no number below it can be bound. -/
def openServerSocket (o : Outcomes) : Acts × Bool :=
  if !o.socketServer then ([], false)
  else
    match o.socket with
    | .zero => ([.acquire .socketServer, .acquire .socket] ++ killSocketServer true, false)
    | .negative => ([.acquire .socketServer] ++ killSocketServer false, false)
    | .positive =>
      if o.listens then ([.acquire .socketServer, .acquire .socket], true)
      else ([.acquire .socketServer, .acquire .socket] ++ killSocketServer true, false)

/-- What was acquired stays where there is no socket. -/
def createHttpServer (o : Outcomes) : Acts × Bool :=
  if !o.publicDir then ([], false)
  else if !o.memalloc then ([], false)
  else if !o.strdup then ([.acquire .server, .release .server], false)
  else
    let (acts, opened) := openServerSocket o
    ([.acquire .server, .acquire .publicDir] ++ acts, opened)

-- ---------------------------------------------------------------------------
-- Registration
-- ---------------------------------------------------------------------------

/-- The allocations for a segment: the copy of a parameter's name, the node, and the copy
of the value. -/
structure SegmentSupply where
  paramName : Bool
  memalloc : Bool
  strdup : Bool
  deriving DecidableEq, Repr

/-- The allocations of a call of `set_http_route`. -/
structure Supply where
  routeCopy : Bool
  segments : Nat → SegmentSupply
  method : Bool

abbrev Call := Registration × Supply

/-- The routes, with the nodes that have a value and the slots that have a method: the
pointers that are not NULL. -/
structure Memory where
  table : Table
  values : Nat → Bool
  methods : Nat → Bool

def Memory.empty : Memory := ⟨RouteTable.empty, fun _ => false, fun _ => false⟩

structure Building where
  chain : Chain
  values : Nat → Bool
  acts : Acts

/-- `create_route_segment`, where there is memory for the node. Its second test is on the
node again, and not on the value. -/
def createActs (a : Nat) (supply : SegmentSupply) : Acts :=
  .acquire (.node a) :: if supply.strdup then [.acquire (.value a)] else []

/-- NULL is linked for a node that could not be created; `none` is a write through NULL. -/
def addNull (c : Chain) : Option Chain :=
  match c.head, c.tail with
  | none, _ => some { c with tail := none, segmentCount := c.segmentCount + 1 }
  | some head, some tail =>
    some ⟨{ c.heap with next := Function.update c.heap.next tail none }, some head, none, c.segmentCount + 1⟩
  | some _, none => none

def isNamed (segmentStr : Bytes) : Bool := (createRouteSegment segmentStr).isParametric

/-- One turn of the loop; `none` is a fault. The name of a parameter is copied first, and
`create_route_segment` does not test it before it copies it again. -/
def Building.add (b : Building) (segment : Bytes × SegmentSupply) : Option Building :=
  let (segmentStr, supply) := segment
  let name : List Token := if isNamed segmentStr && supply.paramName then [.paramName] else []
  let a := b.chain.heap.nodes.length
  if !supply.memalloc then
    (addNull b.chain).map fun chain =>
      ⟨chain, b.values, b.acts ++ (name.map .acquire ++ name.map .release)⟩
  else if isNamed segmentStr && !supply.paramName then none
  else
    (b.chain.add segmentStr).map fun chain =>
      ⟨chain, Function.update b.values a supply.strdup,
        b.acts ++ (name.map .acquire ++ createActs a supply ++ name.map .release)⟩

def segmentsOf (call : Call) : List (Bytes × SegmentSupply) :=
  (strtok 47 call.1.route).zipIdx.map fun (segmentStr, i) => (segmentStr, call.2.segments i)

def Memory.store (m : Memory) (heap : Heap) (slot : Slot) (values : Nat → Bool) (method : Bool) : Memory :=
  ⟨m.table.store heap slot, values, Function.update m.methods m.table.sizeOfHttpRoutes.toNat method⟩

/-- `set_http_route` with its result; `none` is a fault. -/
def Memory.set (m : Memory) (call : Call) : Option ((Memory × UInt8) × Acts) :=
  let (r, supply) := call
  let method : Acts :=
    if supply.method then [.acquire (.method m.table.sizeOfHttpRoutes.toNat)] else []
  if maxHttpRoutes ≤ m.table.sizeOfHttpRoutes.toNat then some ((m, 0), [])
  else if r.route = bytes "/" then
    let a := m.table.heap.nodes.length
    let first := supply.segments 0
    if first.memalloc then
      some ((m.store (m.table.heap.create ⟨bytes "/", false⟩) ⟨some a, 0, r.callback, r.method⟩
        (Function.update m.values a first.strdup) supply.method, 1), createActs a first ++ method)
    else some ((m.store m.table.heap ⟨none, 0, r.callback, r.method⟩ m.values supply.method, 1), method)
  else if !supply.routeCopy then some ((m, 0), [])
  else
    (run Building.add ⟨⟨m.table.heap, none, none, 0⟩, m.values, []⟩ (segmentsOf call)).map fun b =>
      if b.chain.segmentCount = 0 then
        ((⟨{ m.table with heap := b.chain.heap }, b.values, m.methods⟩, 0),
          [.acquire .routeCopy] ++ b.acts ++ [.release .routeCopy])
      else
        ((m.store b.chain.heap ⟨b.chain.head, b.chain.segmentCount, r.callback, r.method⟩ b.values supply.method, 1),
          [.acquire .routeCopy] ++ (b.acts ++ method) ++ [.release .routeCopy])

-- ---------------------------------------------------------------------------
-- The end
-- ---------------------------------------------------------------------------

/-- The successor is read before a segment is freed. There are no more of them than
there are nodes. -/
def freeSegments (m : Memory) : (fuel : Nat) → Option Nat → Option Acts
  | _, none => some []
  | 0, some _ => none
  | fuel + 1, some a =>
    (freeSegments m fuel (m.table.heap.next a)).map
      ((if m.values a then [.release (.value a)] else []) ++ [.release (.node a)] ++ ·)

def freeRoute (m : Memory) (i : Nat) : Option Acts :=
  (m.table.httpRoutes i).bind fun slot =>
    (freeSegments m m.table.heap.nodes.length slot.segment).map
      (· ++ if m.methods i then [.release (.method i)] else [])

def freeRoutes (m : Memory) : Nat → Option Acts
  | 0 => some []
  | k + 1 => (freeRoutes m k).bind fun acts => (freeRoute m k).map (acts ++ ·)

def killHttpServer (m : Memory) : Option Acts :=
  (freeRoutes m m.table.sizeOfHttpRoutes.toNat).map
    (· ++ killSocketServer true ++ [.release .publicDir, .release .server])

def registerAll (m : Memory) : List Call → Option (Memory × Acts)
  | [] => some (m, [])
  | call :: calls =>
    (m.set call).bind fun ((m', _), acts) => (registerAll m' calls).map fun (m'', rest) => (m'', acts ++ rest)

/-- A server from its creation to its end; `none` is a fault of a registration. -/
def life (o : Outcomes) (calls : List Call) : Option Acts :=
  let (acts, created) := createHttpServer o
  if created then
    (registerAll .empty calls).bind fun (m, registered) => (killHttpServer m).map (acts ++ registered ++ ·)
  else some acts

-- ---------------------------------------------------------------------------
-- What is held
-- ---------------------------------------------------------------------------

variable {m m' : Memory} {call : Call} {calls : List Call} {b b' : Building} {segment : Bytes × SegmentSupply}
  {segments : List (Bytes × SegmentSupply)}

def nodeTokens (a : Nat) (hasValue : Bool) : List Token := (if hasValue then [.value a] else []) ++ [.node a]

def segmentTokens (values : Nat → Bool) (as : List Nat) : List Token := as.flatMap fun a => nodeTokens a (values a)

def methodTokens (methods : Nat → Bool) (k : Nat) : List Token := ((List.range k).filter methods).map .method

def created (segments : List (Bytes × SegmentSupply)) : List (Bytes × SegmentSupply) :=
  segments.filter (·.2.memalloc)

/-- What is allocated for the segments, from the node `n` on. -/
def tokensFrom (n : Nat) (segments : List (Bytes × SegmentSupply)) : List Token :=
  ((created segments).zipIdx n).flatMap fun (segment, a) => nodeTokens a segment.2.strdup

/-- Nodes that no route holds: the count of the segments is an `unsigned short`, and
where it comes to 0 the route is not stored. -/
def lostBy (m : Memory) (call : Call) : List Token :=
  if m.table.sizeOfHttpRoutes.toNat < maxHttpRoutes ∧ call.1.route ≠ bytes "/" ∧ call.2.routeCopy ∧
      (segmentsOf call).length % 65536 = 0 then
    tokensFrom m.table.heap.nodes.length (segmentsOf call)
  else []

def lost (m : Memory) : List Call → List Token
  | [] => []
  | call :: calls => lostBy m call ++ (match m.set call with
    | some ((m', _), _) => lost m' calls
    | none => [])

/-- Each slot holds its own list of nodes. -/
structure Owns (t : Table) (lists : List (List Nat)) : Prop where
  size : t.sizeOfHttpRoutes.toNat = lists.length
  le : lists.length ≤ maxHttpRoutes
  slots : ∀ i l, lists[i]? = some l → ∃ slot, t.httpRoutes i = some slot ∧ IsList t.heap.next slot.segment l ∧
    l.length ≤ t.heap.nodes.length ∧ ∀ a ∈ l, a < t.heap.nodes.length

theorem owns_empty : Owns empty [] := ⟨rfl, Nat.zero_le _, fun _ _ h => nomatch h⟩

def heldBy (m : Memory) (lists : List (List Nat)) : List Token :=
  segmentTokens m.values lists.flatten ++ methodTokens m.methods lists.length

theorem segmentTokens_append (values : Nat → Bool) (as bs : List Nat) :
    segmentTokens values (as ++ bs) = segmentTokens values as ++ segmentTokens values bs :=
  List.flatMap_append

theorem segmentTokens_congr {values values' : Nat → Bool} (h : ∀ a ∈ as, values a = values' a) :
    segmentTokens values as = segmentTokens values' as :=
  List.flatMap_congr fun a ha => by rw [h a ha]

theorem Owns.mem_flatten (h : Owns t lists) (ha : a ∈ lists.flatten) : a < t.heap.nodes.length := by
  obtain ⟨l, hl, ha⟩ := List.mem_flatten.mp ha
  obtain ⟨i, hi⟩ := List.mem_iff_getElem?.mp hl
  obtain ⟨slot, -, -, -, hmem⟩ := h.slots i l hi
  exact hmem a ha

theorem Owns.store (h : Owns t lists) (hlt : lists.length < maxHttpRoutes) (hgrows : t.heap.Grows heap)
    (hlist : IsList heap.next slot.segment l) (hlen : l.length ≤ heap.nodes.length)
    (hmem : ∀ a ∈ l, a < heap.nodes.length) : Owns (t.store heap slot) (lists ++ [l]) := by
  have hsize := h.size
  have hmore : t.heap.nodes.length ≤ heap.nodes.length := hgrows.nodes.length_le
  refine ⟨?_, by simpa using hlt, fun i l' hi => ?_⟩
  · have hone : UInt16.toNat 1 = 1 := rfl
    unfold maxHttpRoutes at hlt
    rw [Table.store, UInt16.toNat_add, hsize, hone, List.length_append, List.length_singleton]
    exact Nat.mod_eq_of_lt (by omega)
  · rcases Nat.lt_trichotomy i lists.length with hi' | heq | hgt
    · rw [List.getElem?_append_left hi'] at hi
      obtain ⟨slot', hslot, hlist', hlen', hmem'⟩ := h.slots i l' hi
      have hne : i ≠ t.sizeOfHttpRoutes.toNat := by omega
      refine ⟨slot', (Function.update_of_ne hne _ _).trans hslot, ?_, hlen'.trans hmore, fun a ha => ?_⟩
      · exact (seg_congr fun a ha => hgrows.next a (hmem' a ha)).mpr hlist'
      · exact Nat.lt_of_lt_of_le (hmem' a ha) hmore
    · rw [heq, List.getElem?_concat_length] at hi
      obtain rfl := Option.some.inj hi
      rw [heq, ← hsize]
      exact ⟨slot, Function.update_self .., hlist, hlen, hmem⟩
    · rw [List.getElem?_eq_none (by simpa using hgt)] at hi
      cases hi

theorem Owns.grow (h : Owns t lists) (hgrows : t.heap.Grows heap) : Owns { t with heap } lists := by
  have hmore : t.heap.nodes.length ≤ heap.nodes.length := hgrows.nodes.length_le
  refine ⟨h.size, h.le, fun i l hi => ?_⟩
  obtain ⟨slot, hslot, hlist, hlen, hmem⟩ := h.slots i l hi
  refine ⟨slot, hslot, ?_, hlen.trans hmore, fun a ha => Nat.lt_of_lt_of_le (hmem a ha) hmore⟩
  exact (seg_congr fun a ha => hgrows.next a (hmem a ha)).mpr hlist

-- ---------------------------------------------------------------------------
-- The loop
-- ---------------------------------------------------------------------------

theorem takes_createActs (a : Nat) (supply : SegmentSupply) :
    Takes [] (createActs a supply) (nodeTokens a supply.strdup) := by
  unfold createActs nodeTokens
  cases supply.strdup with
  | false => exact Takes.acquires [Token.node a]
  | true => exact (Takes.acquires [Token.node a, Token.value a]).perm (.refl _) (.swap _ _ _)

/-- The list of the `k` nodes that were created since the heap was `h`. The last one is at
the tail, unless NULL was linked behind it. -/
structure Linked (h : Heap) (k : Nat) (c : Chain) : Prop where
  length : c.heap.nodes.length = h.nodes.length + k
  isList : IsList c.heap.next c.head (List.range' h.nodes.length k)
  tail : ∀ t, c.tail = some t → (List.range' h.nodes.length k).getLast? = some t
  grows : h.Grows c.heap

theorem linked_nil (h : Heap) : Linked h 0 ⟨h, none, none, 0⟩ :=
  ⟨rfl, rfl, nofun, List.prefix_rfl, fun _ _ => rfl⟩

theorem Linked.exists_front {h : Heap} {c : Chain} (hl : Linked h k c) (ht : c.tail = some t) :
    ∃ front, List.range' h.nodes.length k = front ++ [t] ∧ t ∉ front ∧ h.nodes.length ≤ t := by
  obtain ⟨front, hfront⟩ := List.getLast?_eq_some_iff.mp (hl.tail t ht)
  have hnodup := hfront ▸ List.nodup_range' (s := h.nodes.length) (n := k)
  have hmem : t ∈ List.range' h.nodes.length k := by simp [hfront]
  exact ⟨front, hfront, fun hin => by simp [List.nodup_append] at hnodup; exact hnodup.2 t hin rfl, (List.mem_range'_1.mp hmem).1⟩

theorem Linked.add {h : Heap} {c c' : Chain} (hl : Linked h k c) (hadd : c.add segmentStr = some c') :
    Linked h (k + 1) c' ∧ c'.segmentCount = c.segmentCount + 1 := by
  have hlength := hl.length
  have hrange : List.range' h.nodes.length (k + 1) = List.range' h.nodes.length k ++ [c.heap.nodes.length] := by
    rw [List.range'_concat, Nat.one_mul, hlength]
  have hgrows : h.Grows (c.heap.create (createRouteSegment segmentStr)) := by
    have hmore := c.heap.grows_create (createRouteSegment segmentStr)
    exact ⟨hl.grows.nodes.trans hmore.nodes, fun a ha =>
      (hmore.next a (ha.trans_le hl.grows.nodes.length_le)).trans (hl.grows.next a ha)⟩
  unfold Chain.add at hadd
  split at hadd
  · next hhead =>
    cases hadd
    have hnil : List.range' h.nodes.length k = [] := seg_null (hhead ▸ hl.isList)
    rw [hnil] at hrange
    refine ⟨⟨?_, ?_, ?_, hgrows⟩, rfl⟩
    · simp [Heap.create, hlength, Nat.add_assoc]
    · rw [hrange]
      exact ⟨rfl, Function.update_self ..⟩
    · rintro _ ⟨⟩
      simp [hrange]
  · next head t hhead ht =>
    cases hadd
    obtain ⟨front, hfront, hnot, hle⟩ := hl.exists_front ht
    have hnew : c.heap.nodes.length ∉ front ++ [t] := by
      rw [← hfront, List.mem_range'_1]
      omega
    refine ⟨⟨?_, ?_, ?_, hgrows.nodes, fun a ha => ?_⟩, rfl⟩
    · simp [Heap.create, hlength, Nat.add_assoc]
    · rw [hrange, hfront, ← hhead]
      exact isList_append_last (hfront ▸ hl.isList) hnot hnew
    · rintro _ ⟨⟩
      rw [hrange, List.getLast?_concat]
    · exact (Function.update_of_ne (by omega) _ _).trans (hgrows.next a ha)
  · cases hadd

theorem Linked.addNull {h : Heap} {c c' : Chain} (hl : Linked h k c) (hadd : addNull c = some c') :
    Linked h k c' ∧ c'.segmentCount = c.segmentCount + 1 := by
  unfold Teardown.addNull at hadd
  split at hadd
  · cases hadd
    exact ⟨⟨hl.length, hl.isList, nofun, hl.grows⟩, rfl⟩
  · next head t hhead ht =>
    cases hadd
    obtain ⟨front, hfront, -, -⟩ := hl.exists_front ht
    have hlist := hl.isList
    rw [hfront] at hlist
    -- the last node had NULL for its successor before
    have hnext : Function.update c.heap.next t none = c.heap.next := by
      rw [Function.update_eq_self_iff]
      exact (seg_concat.mp hlist).2.symm
    refine ⟨⟨hl.length, ?_, nofun, hl.grows.nodes, ?_⟩, rfl⟩
    · simpa only [hnext, hhead] using hl.isList
    · simpa only [hnext] using hl.grows.next
  · cases hadd

/-- The loop has allocated what the segments need, and linked it. -/
structure Builds (m : Memory) (segments : List (Bytes × SegmentSupply)) (b : Building) : Prop where
  linked : Linked m.table.heap (created segments).length b.chain
  values : ∀ a < m.table.heap.nodes.length, b.values a = m.values a
  tokens : segmentTokens b.values (List.range' m.table.heap.nodes.length (created segments).length) =
    tokensFrom m.table.heap.nodes.length segments
  takes : Takes [] b.acts (tokensFrom m.table.heap.nodes.length segments)
  count : b.chain.segmentCount = UInt16.ofNat segments.length

theorem builds_nil (m : Memory) : Builds m [] ⟨⟨m.table.heap, none, none, 0⟩, m.values, []⟩ :=
  ⟨linked_nil _, fun _ _ => rfl, rfl, .nil _, rfl⟩

theorem tokensFrom_concat (n : Nat) (segments : List (Bytes × SegmentSupply)) (segment : Bytes × SegmentSupply) :
    tokensFrom n (segments ++ [segment]) = tokensFrom n segments ++
      if segment.2.memalloc then nodeTokens (n + (created segments).length) segment.2.strdup else [] := by
  cases hmem : segment.2.memalloc <;> simp [tokensFrom, created, hmem, List.zipIdx_append]

theorem Builds.takes_more (hb : Builds m segments b) {acts : Acts} {tokens : List Token} (h : Takes [] acts tokens) :
    Takes [] (b.acts ++ acts) (tokensFrom m.table.heap.nodes.length segments ++ tokens) :=
  (hb.takes.append (h.frame _)).perm (.refl _) List.perm_append_comm

theorem Builds.count_succ (hb : Builds m segments b) {c : Chain} (hc : c.segmentCount = b.chain.segmentCount + 1)
    (segment : Bytes × SegmentSupply) : c.segmentCount = UInt16.ofNat (segments ++ [segment]).length := by
  rw [hc, hb.count, List.length_append, UInt16.ofNat_add]
  rfl

theorem Builds.addNull (hb : Builds m segments b) (hmem : segment.2.memalloc = false)
    (hchain : addNull b.chain = some chain) (htakes : Takes [] acts []) :
    Builds m (segments ++ [segment]) ⟨chain, b.values, b.acts ++ acts⟩ := by
  have hsame : created (segments ++ [segment]) = created segments := by simp [created, hmem]
  have hconcat : tokensFrom m.table.heap.nodes.length (segments ++ [segment]) =
      tokensFrom m.table.heap.nodes.length segments ++ [] := by
    rw [tokensFrom_concat, if_neg (by simp [hmem])]
  obtain ⟨hlinked, hcount⟩ := hb.linked.addNull hchain
  refine ⟨hsame ▸ hlinked, hb.values, ?_, ?_, hb.count_succ hcount segment⟩
  · rw [hsame, hconcat]
    exact hb.tokens.trans (List.append_nil _).symm
  · rw [hconcat]
    exact hb.takes_more htakes

theorem Builds.addNode (hb : Builds m segments b) (hmem : segment.2.memalloc)
    (hchain : b.chain.add segment.1 = some chain)
    (htakes : Takes [] acts (nodeTokens b.chain.heap.nodes.length segment.2.strdup)) :
    Builds m (segments ++ [segment])
      ⟨chain, Function.update b.values b.chain.heap.nodes.length segment.2.strdup, b.acts ++ acts⟩ := by
  have hlength : b.chain.heap.nodes.length = m.table.heap.nodes.length + (created segments).length := hb.linked.length
  have hcreated : (created (segments ++ [segment])).length = (created segments).length + 1 := by
    simp [created, hmem]
  have hconcat : tokensFrom m.table.heap.nodes.length (segments ++ [segment]) =
      tokensFrom m.table.heap.nodes.length segments ++ nodeTokens b.chain.heap.nodes.length segment.2.strdup := by
    rw [tokensFrom_concat, if_pos hmem, hlength]
  obtain ⟨hlinked, hcount⟩ := hb.linked.add hchain
  refine ⟨hcreated ▸ hlinked, fun a ha => ?_, ?_, ?_, hb.count_succ hcount segment⟩
  · rw [← hb.values a ha]
    exact Function.update_of_ne (by omega) _ _
  · rw [hcreated, hconcat, List.range'_concat, Nat.one_mul, ← hlength, segmentTokens_append, ← hb.tokens]
    congr 1
    · refine segmentTokens_congr fun a ha => Function.update_of_ne ?_ _ _
      rw [List.mem_range'_1] at ha
      omega
    · simp [segmentTokens]
  · rw [hconcat]
    exact hb.takes_more htakes

theorem Builds.add (hb : Builds m segments b) (hadd : b.add segment = some b') :
    Builds m (segments ++ [segment]) b' := by
  unfold Building.add at hadd
  dsimp only at hadd
  split at hadd
  · next hmem =>
    obtain ⟨chain, hchain, rfl⟩ := Option.map_eq_some_iff.mp hadd
    exact hb.addNull (by simpa using hmem) hchain ((Takes.acquires _).append (Takes.releases _))
  · next hmem =>
    split at hadd
    · cases hadd
    obtain ⟨chain, hchain, rfl⟩ := Option.map_eq_some_iff.mp hadd
    exact hb.addNode (by simpa using hmem) hchain ((takes_createActs _ _).during _)

theorem Builds.run (hb : Builds m before b) (hrun : run Building.add b segments = some b') :
    Builds m (before ++ segments) b' := by
  induction segments generalizing before b with
  | nil =>
    obtain rfl := Option.some.inj hrun
    simpa using hb
  | cons segment segments ih =>
    obtain ⟨next, hadd, hrest⟩ := run_cons.mp hrun
    have hall := ih (hb.add hadd) hrest
    rwa [List.append_assoc, List.singleton_append] at hall

-- ---------------------------------------------------------------------------
-- One call
-- ---------------------------------------------------------------------------

def methodToken (i : Nat) (hasMethod : Bool) : List Token := if hasMethod then [.method i] else []

theorem takes_method (i : Nat) (hasMethod : Bool) :
    Takes [] (if hasMethod then [.acquire (.method i)] else []) (methodToken i hasMethod) := by
  unfold methodToken
  cases hasMethod with
  | false => exact .nil []
  | true => exact .acquire _

theorem heldBy_concat (m : Memory) (lists : List (List Nat)) (l : List Nat) :
    (heldBy m lists ++ (segmentTokens m.values l ++ methodToken lists.length (m.methods lists.length))).Perm
      (heldBy m (lists ++ [l])) := by
  have hmethods : methodTokens m.methods (lists ++ [l]).length =
      methodTokens m.methods lists.length ++ methodToken lists.length (m.methods lists.length) := by
    unfold methodTokens methodToken
    rw [List.length_append, List.length_singleton, List.range_succ, List.filter_append, List.map_append]
    cases hm : m.methods lists.length <;> simp [hm]
  rw [heldBy, heldBy, hmethods, List.flatten_concat, segmentTokens_append, List.perm_iff_count]
  intro token
  simp only [List.count_append]
  omega

theorem Owns.heldBy_congr (h : Owns m.table lists)
    (hvalues : ∀ a < m.table.heap.nodes.length, m'.values a = m.values a)
    (hmethods : ∀ i < lists.length, m'.methods i = m.methods i) : heldBy m' lists = heldBy m lists := by
  rw [heldBy, heldBy, segmentTokens_congr fun a ha => hvalues a (h.mem_flatten ha), methodTokens, methodTokens,
    List.filter_congr fun i hi => hmethods i (List.mem_range.mp hi)]

/-- A call that stores nothing. -/
theorem Owns.kept (h : Owns m.table lists) (hlost : lostBy m call = []) :
    ∃ lists', Owns m.table lists' ∧ Takes (heldBy m lists) [] (heldBy m lists' ++ lostBy m call) :=
  ⟨lists, h, by simpa only [hlost, List.append_nil] using .nil _⟩

/-- A call that stores the list `l` in the next slot. -/
theorem Owns.stored (h : Owns m.table lists) (hlt : lists.length < maxHttpRoutes) (hgrows : m.table.heap.Grows heap)
    (hvalues : ∀ a < m.table.heap.nodes.length, values a = m.values a) (hlist : IsList heap.next slot.segment l)
    (hlen : l.length ≤ heap.nodes.length) (hmem : ∀ a ∈ l, a < heap.nodes.length)
    (htakes : Takes [] acts (segmentTokens values l ++ methodToken m.table.sizeOfHttpRoutes.toNat hasMethod))
    (hlost : lostBy m call = []) :
    ∃ lists', Owns (m.store heap slot values hasMethod).table lists' ∧
      Takes (heldBy m lists) acts (heldBy (m.store heap slot values hasMethod) lists' ++ lostBy m call) := by
  refine ⟨lists ++ [l], h.store hlt hgrows hlist hlen hmem, ?_⟩
  have hconcat := heldBy_concat (m.store heap slot values hasMethod) lists l
  have hsame : heldBy (m.store heap slot values hasMethod) lists = heldBy m lists :=
    h.heldBy_congr hvalues fun i hi => Function.update_of_ne (by rw [h.size]; omega) _ _
  have hlast : (m.store heap slot values hasMethod).methods lists.length = hasMethod := by
    rw [← h.size]
    exact Function.update_self ..
  rw [hsame, hlast, ← h.size] at hconcat
  rw [hlost, List.append_nil]
  exact (htakes.frame (heldBy m lists)).perm (.refl _) (List.perm_append_comm.trans hconcat)

/-- A call whose count of segments comes to 0. -/
theorem Owns.lose (h : Owns m.table lists) (hgrows : m.table.heap.Grows heap)
    (hvalues : ∀ a < m.table.heap.nodes.length, values a = m.values a) (htakes : Takes [] acts (lostBy m call)) :
    ∃ lists', Owns { m.table with heap } lists' ∧
      Takes (heldBy m lists) acts (heldBy ⟨{ m.table with heap }, values, m.methods⟩ lists' ++ lostBy m call) := by
  have hsame : heldBy ⟨{ m.table with heap }, values, m.methods⟩ lists = heldBy m lists :=
    h.heldBy_congr hvalues fun _ _ => rfl
  refine ⟨lists, h.grow hgrows, ?_⟩
  rw [hsame]
  exact (htakes.frame (heldBy m lists)).perm (.refl _) List.perm_append_comm

/-- A call allocates what the slot it fills holds, or what it loses. -/
theorem Owns.set (h : Owns m.table lists) (hset : m.set call = some ((m', result), acts)) :
    ∃ lists', Owns m'.table lists' ∧ Takes (heldBy m lists) acts (heldBy m' lists' ++ lostBy m call) := by
  obtain ⟨r, supply⟩ := call
  have htakes {acts : Acts} {tokens : List Token} (h : Takes [] acts tokens) :=
    h.append ((takes_method m.table.sizeOfHttpRoutes.toNat supply.method).frame tokens)
  unfold Memory.set at hset
  dsimp only at hset
  split at hset
  case isTrue hfull =>
    cases hset
    exact h.kept (if_neg fun hall => Nat.not_lt.mpr hfull hall.1)
  case isFalse hfull =>
  have hlt : lists.length < maxHttpRoutes := h.size ▸ Nat.lt_of_not_le hfull
  split at hset
  case isTrue hroot =>
    have hlost : lostBy m (r, supply) = [] := if_neg fun hall => hall.2.1 hroot
    let a := m.table.heap.nodes.length
    split at hset <;> cases hset
    · have hvalue : segmentTokens (Function.update m.values a (supply.segments 0).strdup) [a] =
          nodeTokens a (supply.segments 0).strdup := by simp [segmentTokens]
      refine h.stored (l := [a]) hlt (m.table.heap.grows_create _) (fun b hb => Function.update_of_ne (by omega) _ _)
        ⟨rfl, Function.update_self ..⟩ (by simp [Heap.create]) (by simp [Heap.create, a]) ?_ hlost
      rw [hvalue]
      exact (htakes (takes_createActs a _)).perm (.refl _) List.perm_append_comm
    · exact h.stored (l := []) hlt ⟨List.prefix_rfl, fun _ _ => rfl⟩ (fun _ _ => rfl) rfl (Nat.zero_le _) (by simp)
        (takes_method _ _) hlost
  case isFalse hroot =>
  split at hset
  case isTrue hcopy =>
    cases hset
    exact h.kept (if_neg fun hall => by simp [show supply.routeCopy from hall.2.2.1] at hcopy)
  case isFalse hcopy =>
  obtain ⟨b, hrun, heq⟩ := Option.map_eq_some_iff.mp hset
  have hbuilds : Builds m (segmentsOf (r, supply)) b := (builds_nil m).run hrun
  have hlinked := hbuilds.linked
  have hzero : b.chain.segmentCount = 0 ↔ (segmentsOf (r, supply)).length % 65536 = 0 := by
    rw [hbuilds.count, ← UInt16.toNat_inj]
    simp
  split at heq <;> cases heq
  · next hcount =>
    have hlost : lostBy m (r, supply) = tokensFrom m.table.heap.nodes.length (segmentsOf (r, supply)) :=
      if_pos ⟨Nat.lt_of_not_le hfull, hroot, by simpa using hcopy, hzero.mp hcount⟩
    exact h.lose hlinked.grows hbuilds.values (hlost ▸ hbuilds.takes.during [.routeCopy])
  · next hcount =>
    have hlength := hlinked.length
    refine h.stored hlt hlinked.grows hbuilds.values hlinked.isList (by simp [hlength])
      (by simp [hlength, List.mem_range'_1]) ?_ (if_neg fun hall => hcount (hzero.mpr hall.2.2.2))
    rw [hbuilds.tokens]
    exact ((htakes hbuilds.takes).during [.routeCopy]).perm (.refl _) List.perm_append_comm

theorem registerAll_takes (h : Owns m.table lists) (hall : registerAll m calls = some (m', acts)) :
    ∃ lists', Owns m'.table lists' ∧ Takes (heldBy m lists) acts (heldBy m' lists' ++ lost m calls) := by
  induction calls generalizing m lists acts with
  | nil =>
    cases hall
    exact ⟨lists, h, by simpa [lost] using .nil _⟩
  | cons call calls ih =>
    obtain ⟨⟨⟨next, result⟩, first⟩, hset, hrest⟩ := Option.bind_eq_some_iff.mp hall
    obtain ⟨⟨last, more⟩, hmore, heq⟩ := Option.map_eq_some_iff.mp hrest
    cases heq
    obtain ⟨lists', hown, hcall⟩ := h.set hset
    obtain ⟨lists'', hown', hcalls⟩ := ih hown hmore
    refine ⟨lists'', hown', ?_⟩
    rw [lost, hset]
    refine (hcall.append (hcalls.frame (lostBy m call))).perm (.refl _) ?_
    rw [List.append_assoc]
    exact List.perm_append_comm.append_left _

-- ---------------------------------------------------------------------------
-- Where a call faults
-- ---------------------------------------------------------------------------

/-- No parameter's name is missing where there is a node for it, and behind a node that
was created only the last one may be missing. -/
def Linkable (segments : List (Bytes × SegmentSupply)) : Prop :=
  (∀ s ∈ segments, isNamed s.1 → s.2.memalloc → s.2.paramName) ∧
    segments.dropLast.Pairwise fun s t => s.2.memalloc → t.2.memalloc

instance (segments : List (Bytes × SegmentSupply)) : Decidable (Linkable segments) :=
  inferInstanceAs (Decidable (_ ∧ _))

def Growing (c : Chain) : Prop := c.head = none ∨ c.tail.isSome

theorem Building.add_created {b : Building} (hmem : segment.2.memalloc) (hname : isNamed segment.1 → segment.2.paramName)
    (hgrowing : Growing b.chain) :
    ∃ b', b.add segment = some b' ∧ b'.chain.head.isSome ∧ b'.chain.tail.isSome := by
  have hlinks : ∃ c, b.chain.add segment.1 = some c ∧ c.head.isSome ∧ c.tail.isSome := by
    unfold Chain.add
    rcases hgrowing with hhead | htail
    · simp [hhead]
    · obtain ⟨t, ht⟩ := Option.isSome_iff_exists.mp htail
      cases hhead : b.chain.head <;> simp [ht]
  obtain ⟨c, hadd, hlast⟩ := hlinks
  have hcopied : (isNamed segment.1 && !segment.2.paramName) = false := by
    cases hn : isNamed segment.1 with
    | false => rfl
    | true => simp [hname hn]
  exact ⟨_, by simp only [Building.add, hmem, hcopied, hadd]; rfl, hlast⟩

theorem Building.add_missing {b : Building} (hmem : segment.2.memalloc = false) (hgrowing : Growing b.chain) :
    ∃ b', b.add segment = some b' ∧ b'.chain.head = b.chain.head ∧ b'.chain.tail = none := by
  have hlinks : ∃ c, addNull b.chain = some c ∧ c.head = b.chain.head ∧ c.tail = none := by
    unfold addNull
    rcases hgrowing with hhead | htail
    · simp [hhead]
    · obtain ⟨t, ht⟩ := Option.isSome_iff_exists.mp htail
      cases hhead : b.chain.head <;> simp [ht]
  obtain ⟨c, hadd, hlast⟩ := hlinks
  exact ⟨_, by simp only [Building.add, hmem, hadd]; rfl, hlast⟩

theorem Building.add_unnamed {b : Building} (hmem : segment.2.memalloc) (hname : isNamed segment.1)
    (hcopy : segment.2.paramName = false) : b.add segment = none := by
  simp [Building.add, hmem, hname, hcopy]

theorem Building.add_shut {b : Building} (hhead : b.chain.head.isSome) (htail : b.chain.tail = none) :
    b.add segment = none := by
  obtain ⟨head, hhead⟩ := Option.isSome_iff_exists.mp hhead
  have hadd : b.chain.add segment.1 = none := by simp [Chain.add, hhead, htail]
  have hnull : addNull b.chain = none := by simp [addNull, hhead, htail]
  simp only [Building.add, hadd, hnull, Option.map_none]
  split <;> simp

theorem run_cons_of_eq_some {b : Building} (h : b.add segment = some b') :
    (run Building.add b (segment :: segments)).isSome ↔ (run Building.add b' segments).isSome := by
  rw [run, h, Option.bind_some]

theorem run_cons_of_eq_none {b : Building} (h : b.add segment = none) :
    ¬ (run Building.add b (segment :: segments)).isSome := by
  simp [run, h]

theorem run_shut {b : Building} (hhead : b.chain.head.isSome) (htail : b.chain.tail = none) :
    (run Building.add b segments).isSome ↔ segments = [] := by
  cases segments with
  | nil => simp
  | cons segment segments => exact iff_of_false (run_cons_of_eq_none (Building.add_shut hhead htail)) (by simp)

theorem run_growing {b : Building} (hhead : b.chain.head.isSome) (htail : b.chain.tail.isSome) :
    (run Building.add b segments).isSome ↔
      (∀ s ∈ segments, isNamed s.1 → s.2.memalloc → s.2.paramName) ∧ ∀ s ∈ segments.dropLast, s.2.memalloc := by
  induction segments generalizing b with
  | nil => simp
  | cons segment segments ih =>
    cases hmem : segment.2.memalloc with
    | false =>
      obtain ⟨b', hadd, hhead', htail'⟩ := Building.add_missing hmem (.inr htail)
      rw [run_cons_of_eq_some hadd, run_shut (hhead' ▸ hhead) htail']
      cases segments with
      | nil => simp [hmem]
      | cons next rest => simp [hmem]
    | true =>
      by_cases hname : isNamed segment.1 → segment.2.paramName
      · obtain ⟨b', hadd, hhead', htail'⟩ := Building.add_created hmem hname (.inr htail)
        rw [run_cons_of_eq_some hadd, ih hhead' htail']
        cases segments with
        | nil => simpa [hmem] using hname
        | cons next rest =>
          rw [List.dropLast_cons_cons, List.forall_mem_cons (a := segment), List.forall_mem_cons (a := segment)]
          exact ⟨fun ⟨hnames, hall⟩ => ⟨⟨fun hnamed _ => hname hnamed, hnames⟩, hmem, hall⟩,
            fun ⟨⟨_, hnames⟩, _, hall⟩ => ⟨hnames, hall⟩⟩
      · obtain ⟨hnamed, hcopy⟩ := Classical.not_imp.mp hname
        refine iff_of_false (run_cons_of_eq_none (Building.add_unnamed hmem hnamed (by simpa using hcopy))) ?_
        rintro ⟨hnames, -⟩
        exact hcopy (hnames segment List.mem_cons_self hnamed hmem)

/-- The loop comes to its end exactly for segments that can be linked. -/
theorem run_fresh {b : Building} (hhead : b.chain.head = none) :
    (run Building.add b segments).isSome ↔ Linkable segments := by
  induction segments generalizing b with
  | nil => simp [Linkable]
  | cons segment segments ih =>
    cases hmem : segment.2.memalloc with
    | false =>
      obtain ⟨b', hadd, hhead', -⟩ := Building.add_missing hmem (.inl hhead)
      rw [run_cons_of_eq_some hadd, ih (hhead'.trans hhead)]
      cases segments with
      | nil => simp [Linkable, hmem]
      | cons next rest => simp [Linkable, hmem]
    | true =>
      by_cases hname : isNamed segment.1 → segment.2.paramName
      · obtain ⟨b', hadd, hhead', htail'⟩ := Building.add_created hmem hname (.inl hhead)
        rw [run_cons_of_eq_some hadd, run_growing hhead' htail']
        cases segments with
        | nil => simpa [Linkable, hmem] using hname
        | cons next rest =>
          have hlater (h : ∀ s ∈ (next :: rest).dropLast, s.2.memalloc = true) :
              (next :: rest).dropLast.Pairwise fun s t => s.2.memalloc → t.2.memalloc :=
            List.pairwise_of_forall_mem_list fun _ _ t ht _ => h t ht
          rw [Linkable, List.dropLast_cons_cons, List.forall_mem_cons (a := segment), List.pairwise_cons]
          exact ⟨fun ⟨hnames, hall⟩ => ⟨⟨fun hnamed _ => hname hnamed, hnames⟩, fun t ht _ => hall t ht, hlater hall⟩,
            fun ⟨⟨_, hnames⟩, hall, _⟩ => ⟨hnames, fun t ht => hall t ht hmem⟩⟩
      · obtain ⟨hnamed, hcopy⟩ := Classical.not_imp.mp hname
        refine iff_of_false (run_cons_of_eq_none (Building.add_unnamed hmem hnamed (by simpa using hcopy))) ?_
        rintro ⟨hnames, -⟩
        exact hcopy (hnames segment List.mem_cons_self hnamed hmem)

theorem Memory.set_isSome : (m.set call).isSome ↔ (m.table.sizeOfHttpRoutes.toNat < maxHttpRoutes →
    call.1.route ≠ bytes "/" → call.2.routeCopy → Linkable (segmentsOf call)) := by
  obtain ⟨r, supply⟩ := call
  unfold Memory.set
  dsimp only
  split
  · next hfull => exact iff_of_true rfl fun hlt => (Nat.not_lt.mpr hfull hlt).elim
  next hfull =>
  split
  · next hroot =>
    refine iff_of_true ?_ fun _ hne => (hne hroot).elim
    split <;> rfl
  next hroot =>
  split
  · next hcopy => exact iff_of_true rfl fun _ _ htrue => by simp [htrue] at hcopy
  next hcopy =>
    rw [Option.isSome_map, run_fresh rfl]
    exact ⟨fun h _ _ _ => h, fun h => h (Nat.lt_of_not_le hfull) hroot (by simpa using hcopy)⟩

theorem registerAll_isSome (m : Memory)
    (h : ∀ call ∈ calls, call.1.route ≠ bytes "/" → call.2.routeCopy → Linkable (segmentsOf call)) :
    (registerAll m calls).isSome := by
  induction calls generalizing m with
  | nil => rfl
  | cons call calls ih =>
    obtain ⟨hcall, hcalls⟩ := List.forall_mem_cons.mp h
    obtain ⟨⟨⟨next, result⟩, acts⟩, hset⟩ := Option.isSome_iff_exists.mp (Memory.set_isSome.mpr fun _ => hcall)
    rw [registerAll, hset, Option.bind_some, Option.isSome_map]
    exact ih next hcalls

-- ---------------------------------------------------------------------------
-- With memory for all
-- ---------------------------------------------------------------------------

def SegmentSupply.all : SegmentSupply := ⟨true, true, true⟩

def Supply.all : Supply := ⟨true, fun _ => .all, true⟩

theorem chain_add_all (b : Building) (segmentStr : Bytes) :
    (b.add (segmentStr, .all)).map (·.chain) = b.chain.add segmentStr := by
  simp [Building.add, SegmentSupply.all, Function.comp_def]

theorem chain_run_all (b : Building) (words : List Bytes) :
    (run Building.add b (words.map (·, .all))).map (·.chain) = run Chain.add b.chain words := by
  induction words generalizing b with
  | nil => rfl
  | cons word words ih =>
    rw [List.map_cons, run, run, ← chain_add_all]
    cases b.add (word, .all) with
    | none => rfl
    | some b' => exact ih b'

theorem segmentsOf_all (r : Registration) : segmentsOf (r, .all) = (strtok 47 r.route).map (·, .all) := by
  have hfst := List.zipIdx_map_fst 0 (strtok 47 r.route)
  calc segmentsOf (r, .all) = ((strtok 47 r.route).zipIdx.map Prod.fst).map (·, .all) := by
        rw [List.map_map]
        rfl
    _ = (strtok 47 r.route).map (·, .all) := by rw [hfst]

/-- Where no allocation fails, the table is that of the calls without them. -/
theorem Memory.set_all (m : Memory) (r : Registration) :
    (m.set (r, .all)).map (fun p => (p.1.1.table, p.1.2)) = m.table.set r := by
  have hchain := chain_run_all ⟨⟨m.table.heap, none, none, 0⟩, m.values, []⟩ (strtok 47 r.route)
  rw [Table.set, ← hchain]
  unfold Memory.set
  dsimp only
  rw [segmentsOf_all]
  by_cases hfull : maxHttpRoutes ≤ m.table.sizeOfHttpRoutes.toNat
  · rw [if_pos hfull, if_pos hfull]
    rfl
  · rw [if_neg hfull, if_neg hfull]
    by_cases hroot : r.route = bytes "/"
    · rw [if_pos hroot, if_pos hroot]
      rfl
    · rw [if_neg hroot, if_neg hroot, if_neg (by simp [Supply.all]), Option.map_map, Option.map_map]
      refine Option.map_congr fun b _ => ?_
      simp only [Function.comp_apply]
      split <;> rfl

-- ---------------------------------------------------------------------------
-- The end
-- ---------------------------------------------------------------------------

theorem takes_freeNode (a : Nat) (hasValue : Bool) :
    Takes (nodeTokens a hasValue) ((if hasValue then [.release (.value a)] else []) ++ [.release (.node a)]) [] := by
  unfold nodeTokens
  cases hasValue with
  | false => exact Takes.releases [Token.node a]
  | true => exact Takes.releases [Token.value a, Token.node a]

theorem takes_freeMethod (i : Nat) (hasMethod : Bool) :
    Takes (methodToken i hasMethod) (if hasMethod then [.release (.method i)] else []) [] := by
  unfold methodToken
  cases hasMethod with
  | false => exact .nil []
  | true => exact .release _

theorem freeSegments_takes (m : Memory) (hlist : IsList m.table.heap.next p l) (hfuel : l.length ≤ fuel) :
    ∃ acts, freeSegments m fuel p = some acts ∧ Takes (segmentTokens m.values l) acts [] := by
  induction l generalizing p fuel with
  | nil =>
    obtain rfl : p = none := hlist
    exact ⟨[], by cases fuel <;> rfl, .nil []⟩
  | cons a l ih =>
    obtain ⟨rfl, hrest⟩ := hlist
    obtain ⟨fuel, rfl⟩ : ∃ k, fuel = k + 1 := ⟨fuel - 1, by simp at hfuel; omega⟩
    obtain ⟨acts, hacts, htakes⟩ := ih hrest (Nat.le_of_succ_le_succ hfuel)
    refine ⟨_, by rw [freeSegments, hacts]; rfl, ?_⟩
    exact ((takes_freeNode a (m.values a)).frame (segmentTokens m.values l)).append htakes

theorem Owns.freeRoute (h : Owns m.table lists) (hi : lists[i]? = some l) :
    ∃ acts, freeRoute m i = some acts ∧ Takes (segmentTokens m.values l ++ methodToken i (m.methods i)) acts [] := by
  obtain ⟨slot, hslot, hlist, hlen, -⟩ := h.slots i l hi
  obtain ⟨acts, hacts, htakes⟩ := freeSegments_takes m hlist hlen
  refine ⟨_, by rw [Teardown.freeRoute, hslot, Option.bind_some, hacts]; rfl, ?_⟩
  exact (htakes.frame _).append (takes_freeMethod i (m.methods i))

theorem Owns.freeRoutes (h : Owns m.table lists) (k : Nat) (hk : k ≤ lists.length) :
    ∃ acts, freeRoutes m k = some acts ∧ Takes (heldBy m (lists.take k)) acts [] := by
  induction k with
  | zero => exact ⟨[], rfl, .nil []⟩
  | succ k ih =>
    obtain ⟨acts, hacts, htakes⟩ := ih (Nat.le_of_succ_le hk)
    obtain ⟨last, hlast, htakes'⟩ := h.freeRoute (List.getElem?_eq_getElem (Nat.lt_of_succ_le hk))
    refine ⟨acts ++ last, by simp [Teardown.freeRoutes, hacts, hlast], ?_⟩
    have hlength : (lists.take k).length = k := List.length_take_of_le (Nat.le_of_succ_le hk)
    have hconcat := heldBy_concat m (lists.take k) lists[k]
    rw [hlength, List.take_concat_get'] at hconcat
    exact ((htakes.frame _).append htakes').perm hconcat.symm (.refl _)

def serverTokens : List Token := [.socket, .socketServer, .publicDir, .server]

theorem Owns.kill (h : Owns m.table lists) :
    ∃ acts, killHttpServer m = some acts ∧ Takes (serverTokens ++ heldBy m lists) acts [] := by
  obtain ⟨acts, hacts, htakes⟩ := h.freeRoutes lists.length (Nat.le_refl _)
  rw [List.take_length] at htakes
  refine ⟨acts ++ killSocketServer true ++ [.release .publicDir, .release .server], by
    simp [killHttpServer, h.size, hacts], ?_⟩
  have hall := (htakes.frame serverTokens).append (Takes.releases serverTokens)
  rw [List.append_assoc]
  exact hall.perm List.perm_append_comm (.refl _)

-- ---------------------------------------------------------------------------
-- The life
-- ---------------------------------------------------------------------------

/-- What is held at the end: where a server was created, the nodes no route holds; else
the server and its directory, unless it was not got that far. -/
def leftover (o : Outcomes) (calls : List Call) : List Token :=
  if (createHttpServer o).2 then lost .empty calls
  else if o.publicDir ∧ o.memalloc ∧ o.strdup then [.publicDir, .server]
  else []

theorem takes_createHttpServer (o : Outcomes) :
    Takes [] (createHttpServer o).1
      (if (createHttpServer o).2 then serverTokens
        else if o.publicDir ∧ o.memalloc ∧ o.strdup then [.publicDir, .server] else []) := by
  refine .of_run fun rest => ?_
  obtain ⟨publicDir, memalloc, strdup, socketServer, socket, listens⟩ := o
  cases publicDir <;> cases memalloc <;> cases strdup <;> cases socketServer <;> cases socket <;> cases listens <;>
    simp [createHttpServer, openServerSocket, killSocketServer, serverTokens, run, step]

theorem lostBy_eq_nil (m : Memory) (call : Call) (h : call.1.route.length < 131071) : lostBy m call = [] := by
  have hcount := length_strtok_le 47 call.1.route
  have hlength : (segmentsOf call).length = (strtok 47 call.1.route).length := by simp [segmentsOf]
  unfold lostBy
  split
  · next hall =>
    have hzero : segmentsOf call = [] := List.eq_nil_of_length_eq_zero (by omega)
    rw [hzero]
    rfl
  · rfl

theorem lost_eq_nil (m : Memory) (calls : List Call) (h : ∀ call ∈ calls, call.1.route.length < 131071) :
    lost m calls = [] := by
  induction calls generalizing m with
  | nil => rfl
  | cons call calls ih =>
    obtain ⟨hcall, hcalls⟩ := List.forall_mem_cons.mp h
    rw [lost, lostBy_eq_nil m call hcall, List.nil_append]
    split
    · exact ih _ hcalls
    · rfl

theorem held_of_takes {acts : Acts} {tokens : List Token} (h : Takes [] acts tokens) :
    ∃ tokens', held acts = some tokens' ∧ tokens'.Perm tokens := by
  obtain ⟨tokens', hrun, hperm⟩ := h [] [] (.refl _)
  exact ⟨tokens', hrun, by simpa using hperm⟩

theorem registerAll_kill (hall : registerAll .empty calls = some (m, registered)) :
    ∃ killed, killHttpServer m = some killed ∧ Takes serverTokens (registered ++ killed) (lost .empty calls) := by
  obtain ⟨lists, hown, htakes⟩ := registerAll_takes owns_empty hall
  obtain ⟨killed, hkill, hkilled⟩ := hown.kill
  refine ⟨killed, hkill, ?_⟩
  have hregistered := (htakes.frame serverTokens).perm (.refl _)
    (List.perm_append_comm.trans (.of_eq (List.append_assoc ..).symm))
  exact hregistered.append (hkilled.frame (lost .empty calls))

/-- Over the life of a server, whichever allocations fail and whatever is registered, nothing
is released that is not held, and the lists of segments are freed to their ends. What is
left at the end is `leftover`: nothing, where the server was created and no route is
that long. No registration faults whose segments can be linked. -/
theorem leftover_of_life (o : Outcomes) (calls : List Call) :
    ((∀ call ∈ calls, call.1.route ≠ bytes "/" → call.2.routeCopy → Linkable (segmentsOf call)) →
        (life o calls).isSome) ∧
      ∀ acts, life o calls = some acts → ∃ tokens, held acts = some tokens ∧ tokens.Perm (leftover o calls) ∧
        ((createHttpServer o).2 → (∀ call ∈ calls, call.1.route.length < 131071) → tokens = []) := by
  have hcreate := takes_createHttpServer o
  unfold life leftover
  cases hok : (createHttpServer o).2 with
  | false =>
    simp only [hok] at hcreate ⊢
    refine ⟨fun _ => rfl, fun acts hacts => ?_⟩
    cases hacts
    obtain ⟨tokens, htokens, hperm⟩ := held_of_takes hcreate
    exact ⟨tokens, htokens, hperm, fun h => nomatch h⟩
  | true =>
    simp only [hok, if_true] at hcreate ⊢
    constructor
    · intro h
      obtain ⟨⟨m, registered⟩, hall⟩ := Option.isSome_iff_exists.mp (registerAll_isSome .empty h)
      obtain ⟨killed, hkill, -⟩ := registerAll_kill hall
      simp [hall, hkill]
    · intro acts hlife
      obtain ⟨⟨m, registered⟩, hall, hrest⟩ := Option.bind_eq_some_iff.mp hlife
      obtain ⟨killed, hkill, htakes⟩ := registerAll_kill hall
      rw [hkill, Option.map_some, List.append_assoc] at hrest
      obtain rfl := Option.some.inj hrest
      obtain ⟨tokens, htokens, hperm⟩ := held_of_takes (hcreate.append htakes)
      refine ⟨tokens, htokens, hperm, fun _ hroutes => ?_⟩
      rw [lost_eq_nil .empty calls hroutes] at hperm
      exact hperm.eq_nil

end GeoNS.Http.Teardown
