import GeoNS.LinkedList
import GeoNS.Http.Matching

/-!
# The table of routes

`set_http_route` allocates a route's segments one by one, links each behind the
one before it, and stores the list in the next slot of the server's array. The
table represents the routes that the calls which returned 1 have registered.
-/

namespace GeoNS.Http.RouteTable

open CString LinkedList Runs Routing Matching

/-- The segments that were allocated, numbered in that order, and the pointer in
each. -/
structure Heap where
  nodes : List RouteSegment
  next : Nat → Option Nat

structure Slot where
  segment : Option Nat
  segmentSize : UInt16
  callback : HttpCallback
  method : Bytes

structure Table where
  heap : Heap
  httpRoutes : Nat → Option Slot
  sizeOfHttpRoutes : UInt16

def empty : Table := ⟨⟨[], fun _ => none⟩, fun _ => none, 0⟩

-- ---------------------------------------------------------------------------
-- Registration
-- ---------------------------------------------------------------------------

/-- The next node is allocated, with no successor. -/
def Heap.create (h : Heap) (segment : RouteSegment) : Heap :=
  ⟨h.nodes ++ [segment], Function.update h.next h.nodes.length none⟩

structure Chain where
  heap : Heap
  head : Option Nat
  tail : Option Nat
  segmentCount : UInt16

/-- One turn of the loop; `none` is a write through NULL. -/
def Chain.add (c : Chain) (segmentStr : Bytes) : Option Chain :=
  let node := c.heap.nodes.length
  let heap := c.heap.create (createRouteSegment segmentStr)
  match c.head, c.tail with
  | none, _ => some ⟨heap, some node, some node, c.segmentCount + 1⟩
  | some head, some tail =>
    some ⟨{ heap with next := Function.update heap.next tail (some node) }, some head, some node,
      c.segmentCount + 1⟩
  | some _, none => none

def Table.store (t : Table) (heap : Heap) (slot : Slot) : Table where
  heap := heap
  httpRoutes := Function.update t.httpRoutes t.sizeOfHttpRoutes.toNat (some slot)
  sizeOfHttpRoutes := t.sizeOfHttpRoutes + 1

/-- `set_http_route` with its result; `none` is a fault. -/
def Table.set (t : Table) (r : Registration) : Option (Table × UInt8) :=
  if maxHttpRoutes ≤ t.sizeOfHttpRoutes.toNat then some (t, 0)
  else if r.route = bytes "/" then
    let segment := t.heap.nodes.length
    some (t.store (t.heap.create ⟨bytes "/", false⟩) ⟨some segment, 0, r.callback, r.method⟩, 1)
  else
    (run Chain.add ⟨t.heap, none, none, 0⟩ (strtok 47 r.route)).map fun c =>
      if c.segmentCount = 0 then ({ t with heap := c.heap }, 0)
      else (t.store c.heap ⟨c.head, c.segmentCount, r.callback, r.method⟩, 1)

-- ---------------------------------------------------------------------------
-- The lists in the heap
-- ---------------------------------------------------------------------------

def Heap.Holds (h : Heap) (p : Option Nat) (segs : List RouteSegment) : Prop :=
  ∃ l, IsList h.next p l ∧ l.map (h.nodes[·]?) = segs.map some

structure Heap.Grows (h h' : Heap) : Prop where
  nodes : h.nodes <+: h'.nodes
  next : ∀ a, a < h.nodes.length → h'.next a = h.next a

theorem Heap.Grows.holds {h h' : Heap} (hgrows : h.Grows h') (hp : h.Holds p segs) :
    h'.Holds p segs := by
  obtain ⟨l, hlist, hnodes⟩ := hp
  have hlt : ∀ a ∈ l, a < h.nodes.length := by
    intro a ha
    have hmem : h.nodes[a]? ∈ segs.map some := hnodes ▸ List.mem_map_of_mem ha
    obtain ⟨seg, -, hseg⟩ := List.mem_map.mp hmem
    exact (List.getElem?_eq_some_iff.mp hseg.symm).1
  refine ⟨l, (seg_congr fun a ha => hgrows.next a (hlt a ha)).mpr hlist, ?_⟩
  rw [← hnodes]
  refine List.map_congr_left fun a ha => ?_
  obtain ⟨t, ht⟩ := hgrows.nodes
  rw [← ht, List.getElem?_append_left (hlt a ha)]

/-- The chain holds the segments in the nodes that were allocated for it. -/
structure Built (h : Heap) (segs : List RouteSegment) (c : Chain) : Prop where
  nodes : c.heap.nodes = h.nodes ++ segs
  isList : IsList c.heap.next c.head (List.range' h.nodes.length segs.length)
  tail : c.tail = (List.range' h.nodes.length segs.length).getLast?
  next : ∀ a, a < h.nodes.length → c.heap.next a = h.next a
  count : c.segmentCount = UInt16.ofNat segs.length

theorem built_nil (h : Heap) : Built h [] ⟨h, none, none, 0⟩ := ⟨by simp, rfl, rfl, fun _ _ => rfl, rfl⟩

theorem Built.add {h : Heap} {c : Chain} (hb : Built h segs c) (segmentStr : Bytes) :
    ∃ c', c.add segmentStr = some c' ∧ Built h (segs ++ [createRouteSegment segmentStr]) c' := by
  obtain ⟨hnodes, hlist, htail, hnext, hcount⟩ := hb
  have hlength : c.heap.nodes.length = h.nodes.length + segs.length := by
    rw [hnodes, List.length_append]
  have hcount' : c.segmentCount + 1 = UInt16.ofNat (segs ++ [createRouteSegment segmentStr]).length := by
    rw [hcount, List.length_append, UInt16.ofNat_add]
    rfl
  have hrange : List.range' h.nodes.length (segs ++ [createRouteSegment segmentStr]).length =
      List.range' h.nodes.length segs.length ++ [c.heap.nodes.length] := by
    rw [hlength, List.length_append, List.length_singleton, List.range'_concat, Nat.one_mul]
  have hnodes' : (c.heap.create (createRouteSegment segmentStr)).nodes =
      h.nodes ++ (segs ++ [createRouteSegment segmentStr]) := by
    rw [Heap.create, hnodes, List.append_assoc]
  have hcreate (a : Nat) (ha : a < h.nodes.length) :
      (c.heap.create (createRouteSegment segmentStr)).next a = h.next a := by
    have hne : a ≠ c.heap.nodes.length := by omega
    exact (Function.update_of_ne hne _ _).trans (hnext a ha)
  rcases List.eq_nil_or_concat' segs with rfl | ⟨front, last, rfl⟩
  · have hhead : c.head = none := hlist
    refine ⟨_, by simp only [Chain.add, hhead]; rfl, hnodes', ?_, ?_, hcreate, hcount'⟩
    · rw [hrange]
      exact ⟨rfl, Function.update_self ..⟩
    · rw [hrange, List.getLast?_concat]
  · have hfront : List.range' h.nodes.length (front ++ [last]).length =
        List.range' h.nodes.length front.length ++ [h.nodes.length + front.length] := by
      rw [List.length_append, List.length_singleton, List.range'_concat, Nat.one_mul]
    rw [hfront] at hlist htail
    have htail' : c.tail = some (h.nodes.length + front.length) := by rw [htail, List.getLast?_concat]
    obtain ⟨head, hhead⟩ : ∃ head, c.head = some head := by
      cases hc : c.head with
      | some head => exact ⟨head, rfl⟩
      | none =>
        rw [hc] at hlist
        have hnil := seg_null hlist
        simp at hnil
    have hnot : h.nodes.length + front.length ∉ List.range' h.nodes.length front.length := by
      simp [List.mem_range'_1]
    have hnew : c.heap.nodes.length ∉
        List.range' h.nodes.length front.length ++ [h.nodes.length + front.length] := by
      simp only [hlength, List.length_append, List.length_singleton, List.mem_append, List.mem_range'_1,
        List.mem_singleton]
      omega
    refine ⟨_, by simp only [Chain.add, hhead, htail']; rfl, hnodes', ?_, ?_, fun a ha => ?_, hcount'⟩
    · rw [hrange, hfront, ← hhead]
      exact isList_append_last hlist hnot hnew
    · rw [hrange, List.getLast?_concat]
    · have hne : a ≠ h.nodes.length + front.length := by omega
      exact (Function.update_of_ne hne _ _).trans (hcreate a ha)

theorem Built.run {h : Heap} {c : Chain} (hb : Built h segs c) (words : List Bytes) :
    ∃ c', run Chain.add c words = some c' ∧ Built h (segs ++ words.map createRouteSegment) c' := by
  induction words generalizing segs c with
  | nil => exact ⟨c, rfl, by simpa using hb⟩
  | cons word words ih =>
    obtain ⟨next, hadd, hnext⟩ := hb.add word
    obtain ⟨last, hrun, hlast⟩ := ih hnext
    refine ⟨last, run_cons.mpr ⟨next, hadd, hrun⟩, ?_⟩
    simpa using hlast

theorem Built.grows {h : Heap} {c : Chain} (hb : Built h segs c) : h.Grows c.heap :=
  ⟨⟨segs, hb.nodes.symm⟩, hb.next⟩

theorem Built.holds {h : Heap} {c : Chain} (hb : Built h segs c) : c.heap.Holds c.head segs := by
  refine ⟨_, hb.isList, ?_⟩
  rw [hb.nodes]
  apply List.ext_getElem
  · simp
  · intro i hi _
    simp only [List.length_map, List.length_range'] at hi
    simp [hi]

-- ---------------------------------------------------------------------------
-- One call
-- ---------------------------------------------------------------------------

structure Stores (h : Heap) (slot : Slot) (route : HttpRoute) : Prop where
  segment : h.Holds slot.segment route.segment
  segmentSize : slot.segmentSize = route.segmentSize
  callback : slot.callback = route.callback
  method : slot.method = route.method

structure Represents (t : Table) (routes : List HttpRoute) : Prop where
  size : t.sizeOfHttpRoutes.toNat = routes.length
  le : routes.length ≤ maxHttpRoutes
  slots : ∀ i route, routes[i]? = some route → ∃ slot, t.httpRoutes i = some slot ∧ Stores t.heap slot route

theorem represents_empty : Represents empty [] := ⟨rfl, Nat.zero_le _, fun _ _ h => nomatch h⟩

theorem Represents.store (h : Represents t routes) (hlt : routes.length < maxHttpRoutes)
    (hgrows : t.heap.Grows heap) (hstores : Stores heap slot route) :
    Represents (t.store heap slot) (routes ++ [route]) := by
  have hsize := h.size
  unfold maxHttpRoutes at hlt
  refine ⟨?_, ?_, fun i route' hi => ?_⟩
  · have hone : UInt16.toNat 1 = 1 := rfl
    rw [Table.store, UInt16.toNat_add, hsize, hone, List.length_append, List.length_singleton]
    exact Nat.mod_eq_of_lt (by omega)
  · rw [List.length_append, List.length_singleton]
    exact hlt
  · rcases Nat.lt_trichotomy i routes.length with hlt | heq | hgt
    · rw [List.getElem?_append_left hlt] at hi
      obtain ⟨slot', hslot, hstores'⟩ := h.slots i route' hi
      have hne : i ≠ t.sizeOfHttpRoutes.toNat := by omega
      refine ⟨slot', (Function.update_of_ne hne _ _).trans hslot, ?_⟩
      exact ⟨hgrows.holds hstores'.segment, hstores'.segmentSize, hstores'.callback, hstores'.method⟩
    · rw [heq, List.getElem?_concat_length] at hi
      obtain rfl := Option.some.inj hi
      rw [heq, ← hsize]
      exact ⟨slot, Function.update_self .., hstores⟩
    · rw [List.getElem?_eq_none (by simpa using hgt)] at hi
      contradiction

theorem Heap.grows_create (h : Heap) (segment : RouteSegment) : h.Grows (h.create segment) :=
  ⟨List.prefix_append _ _, fun _ ha => Function.update_of_ne (Nat.ne_of_lt ha) _ _⟩

theorem Heap.holds_create (h : Heap) (segment : RouteSegment) :
    (h.create segment).Holds (some h.nodes.length) [segment] :=
  ⟨[h.nodes.length], ⟨rfl, Function.update_self ..⟩, by simp [Heap.create]⟩

/-- The call does to the table what it does to the routes, and leaves it as it is
where it returns 0. -/
theorem Represents.set (h : Represents t routes) (hsegments : r.segments.length < 65536) :
    register routes r = none ∧ t.set r = some (t, 0) ∨
      ∃ t' routes', register routes r = some routes' ∧ t.set r = some (t', 1) ∧ Represents t' routes' := by
  unfold register setHttpRoute Table.set
  rw [h.size]
  split
  case isTrue hfull => exact .inl ⟨rfl, rfl⟩
  case isFalse hfull =>
  replace hfull := Nat.lt_of_not_le hfull
  split
  case isTrue hroot =>
    refine .inr ⟨_, _, rfl, rfl, h.store hfull (t.heap.grows_create _) ?_⟩
    exact ⟨t.heap.holds_create _, rfl, rfl, rfl⟩
  case isFalse hroot =>
  dsimp only
  obtain ⟨c, hrun, hbuilt⟩ := (built_nil t.heap).run (strtok 47 r.route)
  have hcount : c.segmentCount = UInt16.ofNat r.segments.length := hbuilt.count
  rw [hrun, Option.map_some, hcount]
  by_cases hzero : UInt16.ofNat r.segments.length = 0
  · -- no segment was counted, as the count has not wrapped
    have hnil : strtok 47 r.route = [] := by
      have hlength := congrArg UInt16.toNat hzero
      rw [UInt16.toNat_ofNat', Nat.mod_eq_of_lt hsegments] at hlength
      exact List.map_eq_nil_iff.mp (List.length_eq_zero_iff.mp hlength)
    rw [hnil] at hrun
    obtain rfl := Option.some.inj hrun
    exact .inl ⟨if_pos hzero, congrArg some (if_pos hzero)⟩
  · refine .inr ⟨_, _, if_neg hzero, congrArg some (if_neg hzero), h.store hfull hbuilt.grows ?_⟩
    exact ⟨hbuilt.holds, rfl, rfl, rfl⟩

-- ---------------------------------------------------------------------------
-- Segments and their text
-- ---------------------------------------------------------------------------

def Braced (seg : Bytes) : Prop := ∃ name, seg = 123 :: (name ++ [125])

/-- A segment as it stands in a pattern. -/
def RouteSegment.text (seg : RouteSegment) : Bytes :=
  if seg.isParametric then 123 :: (seg.value ++ [125]) else seg.value

def patternText (segs : List RouteSegment) : Bytes := [47].intercalate (segs.map RouteSegment.text)

theorem specSegment_cases (w : Bytes) :
    (∃ name, w = 123 :: (name ++ [125]) ∧ specSegment w = ⟨name, true⟩) ∨
      ¬ Braced w ∧ specSegment w = ⟨w, false⟩ := by
  by_cases h : Braced w
  · obtain ⟨name, rfl⟩ := h
    refine .inl ⟨name, rfl, ?_⟩
    rw [specSegment, if_pos ⟨by simp, rfl, by rw [← List.cons_append, List.getLast?_concat]⟩]
    simp
  · refine .inr ⟨h, if_neg ?_⟩
    rintro ⟨hlength, hhead, hlast⟩
    obtain ⟨rest, rfl⟩ := List.head?_eq_some_iff.mp hhead
    rcases List.eq_nil_or_concat' rest with rfl | ⟨name, last, rfl⟩
    · simp at hlength
    · rw [← List.cons_append, List.getLast?_concat] at hlast
      obtain rfl := Option.some.inj hlast
      exact h ⟨name, rfl⟩

theorem text_specSegment (w : Bytes) : RouteSegment.text (specSegment w) = w := by
  rcases specSegment_cases w with ⟨name, rfl, h⟩ | ⟨-, h⟩ <;> rw [h] <;> rfl

theorem patternText_pattern (r : Registration) :
    patternText (pattern r) = [47].intercalate (strtok 47 r.route) := by
  rw [patternText, pattern, List.map_map]
  congr 1
  exact (List.map_congr_left fun w _ => text_specSegment w).trans (List.map_id _)

theorem strtok_patternText (r : Registration) :
    strtok 47 (patternText (pattern r)) = strtok 47 r.route := by
  have htoken : ∀ w ∈ strtok 47 r.route, 47 ∉ w ∧ w ≠ [] := fun w hw => token_of_mem hw
  rw [patternText_pattern]
  generalize strtok 47 r.route = words at htoken ⊢
  cases words with
  | nil => rfl
  | cons word words =>
    rw [strtok, List.splitOn_intercalate 47 (fun w hw => (htoken w hw).1) (List.cons_ne_nil _ _)]
    exact List.filter_eq_self.mpr fun w hw => by simpa using (htoken w hw).2

-- ---------------------------------------------------------------------------
-- Calls in a row
-- ---------------------------------------------------------------------------

structure Log where
  table : Table
  results : List UInt8

def begin : Log := ⟨empty, []⟩

def call (s : Log) (r : Registration) : Option Log :=
  (s.table.set r).map fun p => ⟨p.1, s.results ++ [p.2]⟩

def accepted (rs : List Registration) (results : List UInt8) : List Registration :=
  ((rs.zip results).filter (·.2 = 1)).map (·.1)

theorem accepted_concat (h : results.length = rs.length) (r : Registration) (result : UInt8) :
    accepted (rs ++ [r]) (results ++ [result]) =
      accepted rs results ++ if result = 1 then [r] else [] := by
  rw [accepted, List.zip_append h.symm, List.filter_append, List.map_append]
  by_cases hresult : result = 1 <;> simp [accepted, hresult]

theorem length_accepted (h : results.length = rs.length) :
    (accepted rs results).length = results.count 1 := by
  have hzip : (rs.zip results).map Prod.snd = results := List.map_snd_zip (Nat.le_of_eq h)
  calc (accepted rs results).length = ((rs.zip results).filter (·.2 = 1)).length := List.length_map _
    _ = (((rs.zip results).map Prod.snd).filter (· = 1)).length := by
      rw [List.filter_map, List.length_map]
      rfl
    _ = results.count 1 := by
      rw [hzip, List.count, List.countP_eq_length_filter]
      rfl

theorem register_eq_none_iff : register routes r = none ↔
    maxHttpRoutes ≤ routes.length ∨ r.route ≠ bytes "/" ∧ UInt16.ofNat r.segments.length = 0 := by
  unfold register setHttpRoute
  split
  case isTrue hfull => exact iff_of_true rfl (.inl hfull)
  case isFalse hfull =>
  rw [or_iff_right hfull]
  split
  case isTrue hroot => exact iff_of_false (fun h => nomatch h) fun h => h.1 hroot
  case isFalse hroot =>
  rw [and_iff_right hroot]
  dsimp only
  split
  case isTrue hzero => exact iff_of_true rfl hzero
  case isFalse hzero => exact iff_of_false (fun h => nomatch h) hzero

structure Recorded (rs : List Registration) (s : Log) : Prop where
  length : s.results.length = rs.length
  represents : Represents s.table ((accepted rs s.results).map Registration.stored)
  rooted : ∀ r ∈ accepted rs s.results, r.Rooted

theorem Recorded.call (h : Recorded rs s) (hlength : r.route.length < 65536) :
    ∃ t, call s r = some t ∧ Recorded (rs ++ [r]) t := by
  have hsegments : r.segments.length < 65536 := by
    rw [segments_eq hlength]
    exact length_pattern_lt hlength
  have hresults (result : UInt8) : (s.results ++ [result]).length = (rs ++ [r]).length := by
    rw [List.length_append, List.length_append, h.length]
    rfl
  rcases h.represents.set hsegments with ⟨-, hset⟩ | ⟨t', routes', hregister, hset, hrepresents⟩
  · refine ⟨⟨s.table, s.results ++ [0]⟩, by rw [RouteTable.call, hset]; rfl, hresults 0, ?_, ?_⟩
    · simpa [accepted_concat h.length] using h.represents
    · simpa [accepted_concat h.length] using h.rooted
  · obtain ⟨rfl, hrooted⟩ := register_eq hregister
    refine ⟨⟨t', s.results ++ [1]⟩, by rw [RouteTable.call, hset]; rfl, hresults 1, ?_, ?_⟩
    · simpa [accepted_concat h.length] using hrepresents
    · intro r' hr'
      rw [accepted_concat h.length, if_pos rfl, List.mem_append, List.mem_singleton] at hr'
      rcases hr' with hr' | rfl
      · exact h.rooted r' hr'
      · exact hrooted

theorem recorded_of_run (h : ∀ r ∈ rs, r.route.length < 65536) :
    ∃ s, run call begin rs = some s ∧ Recorded rs s := by
  induction rs using List.reverseRecOn with
  | nil => exact ⟨begin, rfl, rfl, represents_empty, fun r hr => nomatch hr⟩
  | append_singleton rs r ih =>
    obtain ⟨s, hrun, hs⟩ := ih fun r' hr' => h r' (List.mem_append_left _ hr')
    obtain ⟨t, hcall, ht⟩ := hs.call (h r (List.mem_append_right _ (List.mem_singleton_self r)))
    refine ⟨t, ?_, ht⟩
    rw [run_append, hrun, Option.bind_some]
    exact run_cons.mpr ⟨t, hcall, rfl⟩

-- ---------------------------------------------------------------------------
-- The invariant
-- ---------------------------------------------------------------------------

structure NormalForm (h : Heap) (slot : Slot) (segs : List RouteSegment) : Prop where
  segment : h.Holds slot.segment segs
  size : slot.segmentSize.toNat = segs.length
  pos : 1 ≤ segs.length
  noSlash : ∀ seg ∈ segs, 47 ∉ seg.value
  literal : ∀ seg ∈ segs, seg.isParametric = false → seg.value ≠ [] ∧ ¬ Braced seg.value
  again : ∃ t slot', empty.set ⟨slot.method, patternText segs, slot.callback⟩ = some (t, 1) ∧
    t.httpRoutes 0 = some slot' ∧ t.heap.Holds slot'.segment segs

structure SlotOk (h : Heap) (slot : Slot) (r : Registration) : Prop where
  method : slot.method = r.method
  callback : slot.callback = r.callback
  segments : r.route ≠ bytes "/" → ∃ segs, NormalForm h slot segs

structure WellFormed (rs : List Registration) (s : Log) : Prop where
  le : s.table.sizeOfHttpRoutes.toNat ≤ maxHttpRoutes
  size : s.table.sizeOfHttpRoutes.toNat = s.results.count 1
  slots : ∀ i, i < s.table.sizeOfHttpRoutes.toNat → ∃ slot r, s.table.httpRoutes i = some slot ∧
    (accepted rs s.results)[i]? = some r ∧ SlotOk s.table.heap slot r
  unchanged : ∀ r t, r.route.length < 65536 → s.table.set r = some (t, 0) → t = s.table

theorem normalForm_pattern (hlength : r.route.length < 65536) (hrooted : r.Rooted)
    (hroot : r.route ≠ bytes "/") (hstores : Stores h slot r.stored) :
    NormalForm h slot (pattern r) := by
  have hstored : r.stored.segment = pattern r := by
    rw [Registration.stored, if_neg hroot, segments_eq hlength]
  have hsize : slot.segmentSize = UInt16.ofNat (pattern r).length := by
    rw [hstores.segmentSize, ← segments_eq hlength]
    rfl
  have hne : strtok 47 r.route ≠ [] := by
    intro hnil
    refine hroot (hrooted ?_)
    rw [Registration.segments, hnil]
    rfl
  have htoken : ∀ seg ∈ pattern r, 47 ∉ RouteSegment.text seg ∧ RouteSegment.text seg ≠ [] := by
    intro seg hseg
    obtain ⟨w, hw, rfl⟩ := List.mem_map.mp hseg
    rw [text_specSegment]
    exact token_of_mem hw
  constructor
  · rw [← hstored]
    exact hstores.segment
  · rw [hsize, UInt16.toNat_ofNat']
    exact Nat.mod_eq_of_lt (length_pattern_lt hlength)
  · rw [pattern, List.length_map]
    exact List.length_pos_iff.mpr hne
  · intro seg hseg hmem
    refine (htoken seg hseg).1 ?_
    cases hparam : seg.isParametric <;> simp [RouteSegment.text, hparam, hmem]
  · intro seg hseg hparam
    obtain ⟨w, hw, rfl⟩ := List.mem_map.mp hseg
    rcases specSegment_cases w with ⟨name, -, hspec⟩ | ⟨hbraced, hspec⟩
    · rw [hspec] at hparam
      contradiction
    · rw [hspec]
      exact ⟨(token_of_mem hw).2, hbraced⟩
  · -- the text of the pattern has the same tokens as the route
    have hagain : Registration.segments ⟨slot.method, patternText (pattern r), slot.callback⟩ = pattern r := by
      rw [Registration.segments, strtok_patternText, ← segments_eq hlength]
      rfl
    have hsegments : (Registration.segments ⟨slot.method, patternText (pattern r), slot.callback⟩).length
        < 65536 := by
      rw [hagain]
      exact length_pattern_lt hlength
    have hnotRoot : patternText (pattern r) ≠ bytes "/" := by
      intro htext
      have htokens := strtok_patternText r
      rw [htext] at htokens
      exact hne htokens.symm
    rcases represents_empty.set hsegments with ⟨hregister, -⟩ | ⟨t, routes, hregister, hset, hrepresents⟩
    · rcases register_eq_none_iff.mp hregister with hfull | ⟨-, hzero⟩
      · contradiction
      · rw [hagain, ← segments_eq hlength] at hzero
        exact absurd (hrooted hzero) hroot
    · obtain ⟨rfl, -⟩ := register_eq hregister
      obtain ⟨slot', hslot, hstores'⟩ := hrepresents.slots 0 _ rfl
      refine ⟨t, slot', hset, hslot, ?_⟩
      have hheld := hstores'.segment
      rwa [Registration.stored, if_neg hnotRoot, hagain] at hheld

/-- The table after any calls, whether they succeed or fail. -/
theorem wellFormed_of_run (h : ∀ r ∈ rs, r.route.length < 65536) :
    ∃ s, run call begin rs = some s ∧ WellFormed rs s := by
  obtain ⟨s, hrun, hs⟩ := recorded_of_run h
  have hlength : s.table.sizeOfHttpRoutes.toNat = (accepted rs s.results).length := by
    rw [hs.represents.size, List.length_map]
  refine ⟨s, hrun, ?_, ?_, fun i hi => ?_, fun r t hr hset => ?_⟩
  · rw [hs.represents.size]
    exact hs.represents.le
  · rw [hlength, length_accepted hs.length]
  · rw [hlength] at hi
    have hget := List.getElem?_eq_getElem hi
    have hmem : (accepted rs s.results)[i] ∈ accepted rs s.results := List.getElem_mem hi
    generalize (accepted rs s.results)[i] = r at hget hmem
    obtain ⟨slot, hslot, hstores⟩ := hs.represents.slots i r.stored (by rw [List.getElem?_map, hget]; rfl)
    refine ⟨slot, r, hslot, hget, hstores.method, hstores.callback, fun hroot => ⟨pattern r, ?_⟩⟩
    have hr : r ∈ rs := by
      obtain ⟨p, hp, rfl⟩ := List.mem_map.mp hmem
      exact (List.of_mem_zip (List.mem_of_mem_filter hp)).1
    exact normalForm_pattern (h r hr) (hs.rooted r hmem) hroot hstores
  · have hsegments : r.segments.length < 65536 := by
      rw [segments_eq hr]
      exact length_pattern_lt hr
    rcases hs.represents.set hsegments with ⟨-, hsame⟩ | ⟨t', routes', -, hstored, -⟩
    · exact congrArg Prod.fst (Option.some.inj (hset.symm.trans hsame))
    · have hresult := congrArg Prod.snd (Option.some.inj (hset.symm.trans hstored))
      exact absurd hresult (show (0 : UInt8) ≠ 1 by decide)

-- ---------------------------------------------------------------------------
-- A sample
-- ---------------------------------------------------------------------------

def sampleCalls : List Registration :=
  [⟨bytes "GET", bytes "/", callbackHome⟩, ⟨bytes "GET", bytes "//", callbackHome⟩,
    ⟨bytes "GET|POST", bytes "/nodes//{name}/{}", callbackAbout⟩]

/-- The route without a segment is refused. -/
theorem wellFormed_sampleCalls :
    ∃ s, run call begin sampleCalls = some s ∧ s.results = [1, 0, 1] ∧ WellFormed sampleCalls s := by
  have hresults : (run call begin sampleCalls).map Log.results = some [1, 0, 1] := by decide +kernel
  have hshort : ∀ r ∈ sampleCalls, r.route.length < 65536 := by decide +kernel
  obtain ⟨s, hrun, hs⟩ := wellFormed_of_run hshort
  rw [hrun] at hresults
  exact ⟨s, hrun, Option.some.inj hresults, hs⟩

end GeoNS.Http.RouteTable
