import GeoNS.Db.Faithful
import GeoNS.Geonsp.Protocol
import GeoNS.Parson.Lengths

/-!
# Replies that fit

The longest answer is a list of sixteen nodes. Its texts come from the table: the
check bounds their characters, the copy into a node their bytes.
-/

namespace GeoNS.Geonsp

open CString Parson

-- ---------------------------------------------------------------------------
-- Servers
-- ---------------------------------------------------------------------------

/-- The check on `server`; `LENGTH` reads a text up to its first NUL. -/
def ShortServer (r : Db.Row) : Prop := Db.length (cstr r.server) ≤ 15

theorem lengthFrom_takeWhile_le (p : UInt8 → Bool) (inside : Bool) (v : Bytes) :
    Db.lengthFrom inside (v.takeWhile p) ≤ Db.lengthFrom inside v := by
  induction v generalizing inside with
  | nil => exact Nat.le_refl _
  | cons c cs ih =>
    by_cases hc : p c
    · rw [List.takeWhile_cons_of_pos hc, Db.lengthFrom, Db.lengthFrom]
      split
      · exact ih _
      · exact Nat.succ_le_succ (ih _)
    · rw [List.takeWhile_cons_of_neg hc]
      exact Nat.zero_le _

theorem shortServer_of_check {r : Db.Row} (h : r.check) : ShortServer r := by
  rw [Db.Row.check, Bool.and_eq_true, decide_eq_true_eq] at h
  exact Nat.le_trans (lengthFrom_takeWhile_le _ _ _) h.1

theorem lows_le_lengthFrom (inside : Bool) (v : Bytes) : lows v ≤ Db.lengthFrom inside v := by
  induction v generalizing inside with
  | nil => exact Nat.le_refl _
  | cons c cs ih =>
    rw [lows_cons, Db.lengthFrom]
    by_cases hc : c < 128
    · have hcont : ¬ 128 ≤ c := UInt8.not_le.mpr hc
      simpa [hc, hcont] using ih _
    · rw [if_neg hc]
      split
      · exact ih _
      · exact Nat.le_succ_of_le (ih _)

theorem lows_serverAddr_le (h : ShortServer r) : lows r.toNode.serverAddr ≤ 15 :=
  Nat.le_trans (List.Sublist.countP_le (List.take_sublist _ _)) (Nat.le_trans (lows_le_lengthFrom _ _) h)

-- ---------------------------------------------------------------------------
-- Nodes
-- ---------------------------------------------------------------------------

theorem collectNodes_subset (h : Db.collectNodes io i rows = some nodes) :
    nodes.length ≤ rows.length ∧ ∀ node ∈ nodes, ∃ r ∈ rows, node = r.toNode := by
  induction rows generalizing i nodes with
  | nil =>
    cases h
    exact ⟨Nat.le_refl _, List.forall_mem_nil _⟩
  | cons r rows ih =>
    rw [Db.collectNodes] at h
    split at h
    · split at h
      · obtain ⟨rest, hrest, rfl⟩ := Option.map_eq_some_iff.mp h
        obtain ⟨hlength, hmem⟩ := ih hrest
        refine ⟨Nat.succ_le_succ hlength, List.forall_mem_cons.mpr ⟨⟨r, List.mem_cons_self, rfl⟩, ?_⟩⟩
        rintro node hnode
        obtain ⟨r', hr', heq⟩ := hmem node hnode
        exact ⟨r', List.mem_cons_of_mem r hr', heq⟩
      · contradiction
    · cases h
      exact ⟨Nat.zero_le _, List.forall_mem_nil _⟩

theorem getAllActiveNodes_subset (h : Db.getAllActiveNodes sqlite io db n = some nodes) :
    nodes.length ≤ n.toNat ∧ ∀ node ∈ nodes, ∃ r ∈ db.nodes, r.status = Db.active ∧ node = r.toNode := by
  unfold Db.getAllActiveNodes at h
  split at h
  · contradiction
  rw [Db.rows_activeText, Option.bind_some] at h
  obtain ⟨hlength, hmem⟩ := collectNodes_subset h
  refine ⟨Nat.le_trans hlength (List.length_take_le _ _), fun node hnode => ?_⟩
  obtain ⟨r, hr, heq⟩ := hmem node hnode
  obtain ⟨hr, hactive⟩ := List.mem_filter.mp (List.mem_of_mem_take hr)
  exact ⟨r, hr, by simpa using hactive, heq⟩

theorem toNode_active {r : Db.Row} (h : r.status = Db.active) : r.toNode.status = Db.active := by
  show (cstr r.status).take 15 = Db.active
  rw [h]
  decide

theorem length_nodeObject_le (node : Node) (hlow : lows node.serverAddr ≤ 15)
    (hcut : node.serverAddr.length ≤ 39) (hstatus : node.status = Db.active) :
    (serialize (.object (nodeObject node))).length ≤ 189 := by
  have hport : node.nodeGateway.toNat < 10 ^ (4 + 1) := by
    have hlt := node.nodeGateway.toNat_lt
    omega
  have hlacksNode : Lacks (objectSetString [] (bytes "server") node.serverAddr) (bytes "node") :=
    (lacks_nil _).setString (by decide) _
  have hlacksStatus : Lacks (objectSetNumber (objectSetString [] (bytes "server") node.serverAddr)
      (bytes "node") node.nodeGateway.toNat) (bytes "status") :=
    ((lacks_nil _).setString (by decide) _).setNumber (by decide) _
  have hserverLength := length_setString_le (lacks_nil (bytes "server")) node.serverAddr
  have hnodeLength := length_setNumber_le hlacksNode hport
  have hstatusLength := length_setString_le hlacksStatus node.status
  have hnames : (serializeString (bytes "server")).length = 8 ∧ (serializeString (bytes "node")).length = 6 ∧
      (serializeString (bytes "status")).length = 8 ∧ (serializeMembers []).length = 0 ∧
      lows Db.active = 6 ∧ Db.active.length = 6 := by decide
  rw [hstatus] at hstatusLength
  rw [serialize, List.length_cons, List.length_append, List.length_singleton, nodeObject, hstatus]
  omega

-- ---------------------------------------------------------------------------
-- Replies
-- ---------------------------------------------------------------------------

theorem length_responseObject_le (isSuccess : Bool) (message : Bytes) :
    (serializeMembers (responseObject isSuccess message)).length ≤ 5 * lows message + message.length + 69 := by
  have hlacks : Lacks (objectSetString [] (bytes "status") (bytes (if isSuccess then "success" else "failed")))
      (bytes "message") := (lacks_nil _).setString (by decide) _
  have hstatus := length_setString_le (lacks_nil (bytes "status"))
    (bytes (if isSuccess then "success" else "failed"))
  have hmessage := length_setString_le hlacks message
  have hnames : (serializeString (bytes "status")).length = 8 ∧ (serializeString (bytes "message")).length = 9 ∧
      (serializeMembers []).length = 0 := by decide
  have hword : lows (bytes (if isSuccess then "success" else "failed")) ≤ 7 ∧
      (bytes (if isSuccess then "success" else "failed")).length ≤ 7 := by cases isSuccess <;> decide
  rw [responseObject]
  omega

theorem length_serverProtoResponse_lt (isSuccess : Bool) (h : message.length < 128) :
    (serverProtoResponse isSuccess message).length < maxGeonspBufferSize := by
  have hobject := length_responseObject_le isSuccess message
  have hlow := lows_le_length message
  rw [serverProtoResponse, payload, serialize, List.length_cons, List.length_append, List.length_singleton]
  unfold maxGeonspBufferSize
  omega

theorem length_nodesArray_le (hlength : nodes.length ≤ maxActiveNodes)
    (hnodes : ∀ node ∈ nodes, (serialize (.object (nodeObject node))).length ≤ 189) :
    (serialize (nodesArray nodes)).length ≤ 3042 := by
  have hitems : (serializeItems (nodes.map fun node => .object (nodeObject node))).length ≤ _ :=
    length_serializeItems_le (k := 189) (by simpa using hnodes)
  rw [List.length_map] at hitems
  rw [nodesArray, serialize, List.length_cons, List.length_append, List.length_singleton]
  unfold maxActiveNodes at hlength
  omega

theorem length_serverProtoDataResponse_le (isSuccess : Bool) (message : Bytes) (data : Value) :
    (serverProtoDataResponse isSuccess message data).length ≤
      5 * lows message + message.length + (serialize data).length + 79 := by
  have hlacks : Lacks (responseObject isSuccess message) (bytes "data") :=
    ((lacks_nil _).setString (by decide) _).setString (by decide) _
  have hobject := length_responseObject_le isSuccess message
  have hdata : (serializeMembers (objectSetValue (responseObject isSuccess message) (bytes "data") (some data))).length ≤
      (serializeMembers (responseObject isSuccess message)).length + (serializeString (bytes "data")).length +
        (serialize data).length + 2 := by
    refine length_setValue_le hlacks fun v hv => ?_
    cases hv
    exact Nat.le_refl _
  have hname : (serializeString (bytes "data")).length = 6 := by decide
  rw [serverProtoDataResponse, payload, serialize, List.length_cons, List.length_append, List.length_singleton]
  omega

theorem length_handleGetNodes_lt (hdb : ∀ r ∈ db.nodes, ShortServer r) (host : Host) (io : DbIo) :
    (handleGetNodes host io db).response.length < maxGeonspBufferSize := by
  unfold handleGetNodes
  split
  · exact length_serverProtoResponse_lt _ (by decide)
  split
  · decide
  split
  · decide
  split
  case h_1 nodes hnodes =>
    obtain ⟨hlength, hmem⟩ := getAllActiveNodes_subset hnodes
    have harray : (serialize (nodesArray nodes)).length ≤ 3042 := by
      refine length_nodesArray_le hlength fun node hnode => ?_
      obtain ⟨r, hr, hactive, rfl⟩ := hmem node hnode
      exact length_nodeObject_le _ (lows_serverAddr_le (hdb r hr)) (List.length_take_le _ _) (toNode_active hactive)
    have hresponse := length_serverProtoDataResponse_le true (bytes "Successfully fetched list of nodes.")
      (nodesArray nodes)
    have hmessage : 5 * lows (bytes "Successfully fetched list of nodes.") +
        (bytes "Successfully fetched list of nodes.").length ≤ 216 := by decide
    show (serverProtoDataResponse _ _ _).length < 4096
    omega
  case h_2 => exact length_serverProtoResponse_lt _ (by decide)

theorem length_addNodeResponse_lt (insertNode : UInt8) :
    (addNodeResponse insertNode).length < maxGeonspBufferSize := by
  unfold addNodeResponse
  split
  · exact length_serverProtoResponse_lt _ (by decide)
  split
  · exact length_serverProtoResponse_lt _ (by decide)
  · exact length_serverProtoResponse_lt _ (by decide)

theorem length_handleAddNode_lt (host : Host) (io : DbIo) (clientAddr : Bytes) (request : Option Object)
    (db : Db.Database) : (handleAddNode host io clientAddr request db).response.length < maxGeonspBufferSize := by
  unfold handleAddNode
  split
  · exact length_serverProtoResponse_lt _ (by decide)
  split
  · decide
  split
  · decide
  exact length_addNodeResponse_lt _

/-- Whatever is asked. -/
theorem length_response_lt (hdb : ∀ r ∈ db.nodes, ShortServer r) (host : Host) (io : DbIo)
    (clientAddr buffer : Bytes) :
    (nodeServerCallback host io clientAddr buffer db).response.length < maxGeonspBufferSize := by
  unfold nodeServerCallback
  split
  · exact length_serverProtoResponse_lt _ (by decide)
  dsimp only
  split
  · split
    · decide
    split
    · refine length_serverProtoResponse_lt _ (Nat.lt_of_le_of_lt (List.length_take_le _ _) ?_)
      decide
    split
    · exact length_handleGetNodes_lt hdb host io
    split
    · exact length_handleAddNode_lt host io clientAddr _ db
    · exact length_serverProtoResponse_lt _ (by decide)
  · exact length_serverProtoResponse_lt _ (by decide)

/-- More nodes than a reply lists, whose addresses are the longest that pass the check,
all of characters that are escaped. -/
def escapedNodes : Db.Database :=
  ⟨false, (List.range 20).map fun n => ⟨List.replicate 14 1 ++ [UInt8.ofNat n + 1], 40000 + n, Db.active⟩⟩

theorem length_response_escapedNodes :
    (nodeServerCallback ⟨[], .strict, fun _ => 0⟩ .ok (bytes "10.0.0.2")
      (payload constructGetNodesRequest) escapedNodes).response.length < maxGeonspBufferSize := by
  apply length_response_lt
  rintro r hr
  obtain ⟨n, hn, rfl⟩ := List.mem_map.mp hr
  have hcheck : ∀ n < 20, (⟨List.replicate 14 1 ++ [UInt8.ofNat n + 1], 40000 + n, Db.active⟩ : Db.Row).check := by
    decide +kernel
  exact shortServer_of_check (hcheck n (List.mem_range.mp hn))

end GeoNS.Geonsp
