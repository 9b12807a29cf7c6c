import GeoNS.Geonsp.Listing

/-!
# What is done with a list

The loop over a peer's list with its calls logged, beside the list itself. The
counter of the loop is a byte, and it stops at the first NULL that it hands on.
-/

namespace GeoNS.Geonsp.Reply

open CString Parson Inet
open Ping (listedNodes)

/-- One round of the loop: the string that `isMyIp` gets, where `none` is NULL,
and what `insertNewNode` gets where it is called. -/
structure Visit where
  index : Nat
  checked : Option Bytes
  inserted : Option Pair
  deriving DecidableEq, Repr

section
variable (host : Host) (own : List Ipv4)

def visit (nodes : Option (List Value)) (i : Nat) : Visit where
  index := i
  checked := objectGetString (arrayGetObject nodes i) (bytes "server")
  inserted := (entry host (arrayGetObject nodes i)).filter fun p => !isMyIp own p.1

def visits (nodes : Option (List Value)) (i : Nat) : (left : Nat) → List Visit
  | 0 => []
  | left + 1 =>
    visit host own nodes i ::
      if (visit host own nodes i).checked.isSome then visits nodes (i + 1) left else []

def replyVisits (reply : Bytes) : List Visit :=
  visits host own (listedNodes reply) 0 (arrayGetCount (listedNodes reply) % 256)

def insertVisit (io : InsertIo) (db : Db.Database) (v : Visit) : Db.Database :=
  match v.inserted with
  | none => db
  | some p => (Db.insertNewNode host.sqlite (io v.index) db p.1 p.2).2

end

-- ---------------------------------------------------------------------------
-- The elements of a list
-- ---------------------------------------------------------------------------

def elements (reply : Bytes) : List Value := (listedNodes reply).getD []

def serverOf (v : Value) : Option Bytes := objectGetString (valueGetObject (some v)) (bytes "server")

def portOf (host : Host) (v : Value) : UInt16 :=
  host.toUshort (objectGetNumber (valueGetObject (some v)) (bytes "node"))

def wanted (host : Host) (own : List Ipv4) (v : Value) : Option Pair :=
  match serverOf v with
  | some server => if isMyIp own server then none else some (server, portOf host v)
  | none => none

/-- The loop goes through, it has visited every element once and in order and handed no
NULL on, and it has inserted those with a server that is not an own address. -/
structure Processed (host : Host) (own : List Ipv4) (reply : Bytes) : Prop where
  outcome : ∀ io db, registerReply host own io reply db =
    some ((replyVisits host own reply).foldl (insertVisit host io) db)
  visited : (replyVisits host own reply).map (·.index) = List.range (elements reply).length
  strings : ∀ v ∈ replyVisits host own reply, v.checked.isSome
  inserts : (replyVisits host own reply).filterMap (·.inserted) =
    (elements reply).filterMap (wanted host own)

-- ---------------------------------------------------------------------------
-- The log is the loop's
-- ---------------------------------------------------------------------------

theorem registerNode_visit (host : Host) (own : List Ipv4) (io : InsertIo)
    (nodes : Option (List Value)) (i : Nat) (db : Db.Database) :
    registerNode host own (io i) (arrayGetObject nodes i) db =
      if (visit host own nodes i).checked.isSome then some (insertVisit host io db (visit host own nodes i))
      else none := by
  unfold registerNode visit insertVisit entry
  cases objectGetString (arrayGetObject nodes i) (bytes "server") with
  | none => rfl
  | some server => cases hown : isMyIp own server <;> simp [hown, Option.filter]

theorem registerNodes_visits (host : Host) (own : List Ipv4) (io : InsertIo)
    (nodes : Option (List Value)) (i left : Nat) (db : Db.Database) :
    registerNodes host own io nodes i left db =
      if ∀ v ∈ visits host own nodes i left, v.checked.isSome then
        some ((visits host own nodes i left).foldl (insertVisit host io) db)
      else none := by
  induction left generalizing i db with
  | zero => simp [registerNodes, visits]
  | succ left ih =>
    rw [registerNodes, registerNode_visit, visits]
    cases hchecked : (visit host own nodes i).checked.isSome with
    | false => simp [hchecked]
    | true => simp [hchecked, ih]

theorem registerReply_visits (host : Host) (own : List Ipv4) (io : InsertIo) (reply : Bytes)
    (db : Db.Database) :
    registerReply host own io reply db =
      if ∀ v ∈ replyVisits host own reply, v.checked.isSome then
        some ((replyVisits host own reply).foldl (insertVisit host io) db)
      else none :=
  registerNodes_visits host own io (listedNodes reply) 0 _ db

-- ---------------------------------------------------------------------------
-- Which lists are processed
-- ---------------------------------------------------------------------------

theorem length_visits_le (host : Host) (own : List Ipv4) (nodes : Option (List Value)) (i left : Nat) :
    (visits host own nodes i left).length ≤ left := by
  induction left generalizing i with
  | zero => exact Nat.le_refl 0
  | succ left ih =>
    rw [visits, List.length_cons]
    apply Nat.succ_le_succ
    split
    · exact ih (i + 1)
    · exact Nat.zero_le left

theorem visits_eq_map {nodes : Option (List Value)} (i left : Nat)
    (h : ∀ j ∈ List.range' i left, (visit host own nodes j).checked.isSome) :
    visits host own nodes i left = (List.range' i left).map (visit host own nodes) := by
  induction left generalizing i with
  | zero => rfl
  | succ left ih =>
    rw [List.range'_succ, List.forall_mem_cons] at h
    rw [visits, if_pos h.1, ih (i + 1) h.2, List.range'_succ, List.map_cons]

theorem checked_of_visits {nodes : Option (List Value)} (i left : Nat)
    (h : ∀ v ∈ visits host own nodes i left, v.checked.isSome) :
    ∀ j ∈ List.range' i left, (visit host own nodes j).checked.isSome := by
  induction left generalizing i with
  | zero => simp
  | succ left ih =>
    rw [visits, List.forall_mem_cons] at h
    obtain ⟨hfirst, hrest⟩ := h
    rw [if_pos hfirst] at hrest
    rw [List.range'_succ, List.forall_mem_cons]
    exact ⟨hfirst, ih (i + 1) hrest⟩

theorem visit_of_getElem? {nodes : List Value} (h : nodes[i]? = some v) :
    (visit host own (some nodes) i).checked = serverOf v ∧
      (visit host own (some nodes) i).inserted = wanted host own v := by
  have hnode : arrayGetObject (some nodes) i = valueGetObject (some v) := congrArg valueGetObject h
  refine ⟨congrArg (objectGetString · (bytes "server")) hnode, ?_⟩
  unfold visit wanted entry serverOf portOf
  rw [hnode]
  cases objectGetString (valueGetObject (some v)) (bytes "server") with
  | none => rfl
  | some server => cases hown : isMyIp own server <;> simp [hown]

theorem checked_range_iff (host : Host) (own : List Ipv4) (nodes : List Value) :
    (∀ i ∈ List.range' 0 nodes.length, (visit host own (some nodes) i).checked.isSome) ↔
      ∀ v ∈ nodes, (serverOf v).isSome := by
  rw [← List.range_eq_range']
  constructor
  · intro h v hv
    obtain ⟨i, hi, hget⟩ := List.mem_iff_getElem.mp hv
    rw [← (visit_of_getElem? (List.getElem?_eq_some_iff.mpr ⟨hi, hget⟩)).1]
    exact h i (List.mem_range.mpr hi)
  · intro h i hi
    have hin := List.mem_range.mp hi
    rw [(visit_of_getElem? (List.getElem?_eq_getElem hin)).1]
    exact h _ (List.getElem_mem hin)

theorem inserted_range (nodes : List Value) :
    ((List.range' 0 nodes.length).map (visit host own (some nodes))).filterMap (·.inserted) =
      nodes.filterMap (wanted host own) := by
  have hinserted : (List.range' 0 nodes.length).map (fun i => (visit host own (some nodes) i).inserted) =
      nodes.map (wanted host own) := by
    rw [← List.range_eq_range']
    refine List.ext_getElem (by simp) fun i hi hi' => ?_
    have hin : i < nodes.length := by simpa using hi'
    simpa using (visit_of_getElem? (List.getElem?_eq_getElem hin)).2
  have hflat := congrArg (List.filterMap id) hinserted
  rw [List.filterMap_map, List.filterMap_map] at hflat
  rw [List.filterMap_map]
  exact hflat

/-- A list is processed exactly where its length fits the byte of the count and
every element has a server. -/
theorem processed_iff (host : Host) (own : List Ipv4) (reply : Bytes) :
    Processed host own reply ↔
      (elements reply).length < 256 ∧ ∀ v ∈ elements reply, (serverOf v).isSome := by
  cases hlisted : listedNodes reply with
  | none =>
    have helements : elements reply = [] := by rw [elements, hlisted]; rfl
    have hnone : replyVisits host own reply = [] := by rw [replyVisits, hlisted]; rfl
    rw [helements]
    refine iff_of_true ⟨fun io db => ?_, ?_, ?_, ?_⟩ ⟨by decide, by simp⟩
    · simp [registerReply_visits, hnone]
    · simp [hnone, helements]
    · simp [hnone]
    · simp [hnone, helements]
  | some nodes =>
    have helements : elements reply = nodes := by rw [elements, hlisted]; rfl
    have hvisits : replyVisits host own reply = visits host own (some nodes) 0 (nodes.length % 256) := by
      rw [replyVisits, hlisted]
      rfl
    rw [helements]
    constructor
    · intro h
      have hlength := congrArg List.length h.visited
      rw [List.length_map, List.length_range, helements, hvisits] at hlength
      have hle := length_visits_le host own (some nodes) 0 (nodes.length % 256)
      have hfits : nodes.length < 256 := by omega
      have hstrings := h.strings
      rw [hvisits, Nat.mod_eq_of_lt hfits] at hstrings
      exact ⟨hfits, (checked_range_iff host own nodes).mp (checked_of_visits _ _ hstrings)⟩
    · rintro ⟨hfits, hservers⟩
      have hchecked := (checked_range_iff host own nodes).mpr hservers
      rw [Nat.mod_eq_of_lt hfits, visits_eq_map _ _ hchecked] at hvisits
      have hstrings : ∀ v ∈ replyVisits host own reply, v.checked.isSome := by
        rw [hvisits, List.forall_mem_map]
        exact hchecked
      refine ⟨fun io db => ?_, ?_, hstrings, ?_⟩
      · rw [registerReply_visits, if_pos hstrings]
      · rw [hvisits, helements, List.map_map, List.range_eq_range']
        exact List.map_id _
      · rw [hvisits, helements, inserted_range]

-- ---------------------------------------------------------------------------
-- A long list, and one without a server
-- ---------------------------------------------------------------------------

def crowd (n : Nat) : Bytes :=
  payload [(bytes "data", .array (List.replicate n (.object [(bytes "server", .string (bytes "7"))])))]

def serverless : Bytes := bytes "\x7b\"data\":[\x7b\"node\":9060\x7d]\x7d"

theorem writable_singleton (hn : n ≤ maxNesting) (hname : (0 : UInt8) ∉ name)
    (hv : Writable (n + 1) v) : Writable n (.object [(name, v)]) := by
  refine .object hn ?_ (List.nodup_singleton name) ?_
  · exact List.forall_mem_singleton.mpr hname
  · exact List.forall_mem_singleton.mpr hv

theorem listedNodes_crowd (n : Nat) : listedNodes (crowd n) =
    some (List.replicate n (.object [(bytes "server", .string (bytes "7"))])) := by
  have helement : Writable 2 (.object [(bytes "server", .string (bytes "7"))]) :=
    writable_singleton (by decide) (by decide) (.string (by decide) _)
  have hlist : Writable 1 (.array (List.replicate n (.object [(bytes "server", .string (bytes "7"))]))) :=
    .array (by decide) fun v hv => List.eq_of_mem_replicate hv ▸ helement
  have hname : (0 : UInt8) ∉ bytes "data" := by decide
  have hparsed := jsonParseString_serialize (writable_singleton (by decide) hname hlist) []
  rw [List.append_nil] at hparsed
  rw [listedNodes, crowd, payload, hparsed]
  rfl

/-- The count of 256 elements is 0, and an element without a server ends the
exchange with a fault. -/
theorem not_processed_crowd :
    let own := []
    (crowd 256).length < maxGeonspBufferSize ∧ (elements (crowd 256)).length = 256 ∧
      replyVisits sampleHost own (crowd 256) = [] ∧ ¬ Processed sampleHost own (crowd 256) ∧
      registerReply sampleHost own (fun _ => .ok) serverless ⟨false, []⟩ = none ∧
      ¬ Processed sampleHost own serverless := by
  have hvisits : replyVisits sampleHost [] (crowd 256) = [] := by
    rw [replyVisits, listedNodes_crowd, arrayGetCount, Option.getD_some, List.length_replicate]
    rfl
  have helements : (elements (crowd 256)).length = 256 := by
    rw [elements, listedNodes_crowd, Option.getD_some, List.length_replicate]
  refine ⟨by decide +kernel, helements, hvisits, ?_, by decide +kernel, ?_⟩
  · intro h
    have hvisited := h.visited
    rw [hvisits, helements] at hvisited
    exact absurd (congrArg List.length hvisited) (by simp)
  · intro h
    have hmem : ⟨0, none, none⟩ ∈ replyVisits sampleHost [] serverless := by decide +kernel
    exact absurd (h.strings _ hmem) (by decide)

end GeoNS.Geonsp.Reply
