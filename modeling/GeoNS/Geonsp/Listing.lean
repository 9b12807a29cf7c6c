import GeoNS.Geonsp.Answers
import GeoNS.Geonsp.Ping

/-!
# What a list teaches

The pairs that a node reads from a peer's list, and what they add to its
table. Where the texts of the queries say what is meant, a pair is added
unless it is the node's own, already there, or refused by the `CHECK`.
-/

namespace GeoNS.Geonsp

open CString Parson Inet
open Ping (listedNodes)

abbrev Pair := Bytes × UInt16

/-- What the loop of an exchange reads from one element: `none` where it hands
a NULL server on. -/
def entry (host : Host) (node : Option Object) : Option Pair :=
  (objectGetString node (bytes "server")).map fun serverAddr =>
    (serverAddr, host.toUshort (objectGetNumber node (bytes "node")))

def entries (host : Host) (reply : Bytes) : List (Option Pair) :=
  (List.range (arrayGetCount (listedNodes reply) % 256)).map fun i =>
    entry host (arrayGetObject (listedNodes reply) i)

def key (r : Db.Row) : Bytes × Int := (r.server, r.nodeGateway)

def keys (nodes : List Db.Row) : List (Bytes × Int) := nodes.map key

def Pair.key (p : Pair) : Bytes × Int := (p.1, p.2.toNat)

def Pair.row (p : Pair) : Db.Row := ⟨p.1, p.2.toNat, Db.active⟩

def insertPair (nodes : List Db.Row) (p : Pair) : List Db.Row :=
  if p.key ∈ keys nodes ∨ p.row.check = false then nodes else nodes ++ [p.row]

def learn (own : List Ipv4) (nodes : List Db.Row) (p : Pair) : List Db.Row :=
  if isMyIp own p.1 then nodes else insertPair nodes p

/-- The pairs an exchange looks up or inserts as meant: those with texts that
are read as such, and those it does not hand to the database. -/
def Clean (own : List Ipv4) (p : Pair) : Prop := isMyIp own p.1 ∨ Db.Plain p.1 p.2

def Learnable (own : List Ipv4) (p : Pair) : Prop := isMyIp own p.1 = false ∧ p.row.check

-- ---------------------------------------------------------------------------
-- One insertion
-- ---------------------------------------------------------------------------

theorem mem_keys_iff : x ∈ keys nodes ↔ ∃ r ∈ nodes, key r = x := List.mem_map

theorem isNode_iff {r : Db.Row} {p : Pair} : r.isNode p.1 p.2.toNat ↔ key r = p.key := by
  simp [Db.Row.isNode, key, Pair.key]

theorem any_isNode_iff {nodes : List Db.Row} {p : Pair} :
    nodes.any (·.isNode p.1 p.2.toNat) ↔ p.key ∈ keys nodes := by
  rw [List.any_eq_true, mem_keys_iff]
  exact exists_congr fun r => and_congr_right fun _ => isNode_iff

theorem insertNewNode_ok (h : Db.Plain p.1 p.2) (sqlite : Db.Sqlite) (nodes : List Db.Row) :
    (Db.insertNewNode sqlite .ok ⟨false, nodes⟩ p.1 p.2).2 = ⟨false, insertPair nodes p⟩ := by
  unfold insertPair
  split
  case isTrue hrefused =>
    apply Db.insertNewNode_not_adds h
    intro hadds
    rcases hrefused with hmem | hcheck
    · have hfound := any_isNode_iff.mpr hmem
      exact absurd hadds.missing (by simpa [Db.Calls.ok] using hfound)
    · have hcheck' : p.row.check := (Db.check_active ..).mpr hadds.short
      rw [hcheck] at hcheck'
      contradiction
  case isFalse hadded =>
    rw [not_or, Bool.not_eq_false] at hadded
    obtain ⟨hnew, hcheck⟩ := hadded
    have hmissing := Bool.eq_false_iff.mpr (mt any_isNode_iff.mp hnew)
    have hadds : Db.Adds .ok ⟨false, nodes⟩ p.1 p.2 :=
      ⟨rfl, rfl, hmissing, rfl, (Db.check_active ..).mp hcheck⟩
    exact Db.insertNewNode_adds h hadds sqlite

theorem prefix_insertPair (nodes : List Db.Row) (p : Pair) : nodes <+: insertPair nodes p := by
  unfold insertPair
  split
  · exact List.prefix_rfl
  · exact List.prefix_append nodes _

theorem mem_keys_insertPair {p : Pair} (hcheck : p.row.check) :
    x ∈ keys (insertPair nodes p) ↔ x ∈ keys nodes ∨ x = p.key := by
  unfold insertPair
  split
  case isTrue h =>
    rcases h with h | h
    · exact ⟨.inl, fun hx => hx.elim id fun hx => hx ▸ h⟩
    · simp [hcheck] at h
  case isFalse h =>
    rw [keys, List.map_append, List.mem_append]
    simp [keys, key, Pair.row, Pair.key]

theorem insertPair_refused {p : Pair} (hcheck : p.row.check = false) : insertPair nodes p = nodes :=
  if_pos (.inr hcheck)

theorem nodup_insertPair (h : (keys nodes).Nodup) (p : Pair) : (keys (insertPair nodes p)).Nodup := by
  unfold insertPair
  split
  · exact h
  · rename_i hnew
    have hkey : key p.row = p.key := rfl
    rw [keys, List.map_append, List.map_singleton, hkey, List.nodup_append]
    refine ⟨h, List.nodup_singleton _, ?_⟩
    rintro x hx y hy rfl
    rw [List.mem_singleton.mp hy] at hx
    exact hnew (.inl hx)

-- ---------------------------------------------------------------------------
-- A whole list
-- ---------------------------------------------------------------------------

theorem prefix_learn (own : List Ipv4) (nodes : List Db.Row) (p : Pair) :
    nodes <+: learn own nodes p := by
  unfold learn
  split
  · exact List.prefix_rfl
  · exact prefix_insertPair nodes p

theorem mem_keys_learn : x ∈ keys (learn own nodes p) ↔ x ∈ keys nodes ∨ Learnable own p ∧ x = p.key := by
  unfold learn Learnable
  split
  case isTrue hown => simp [hown]
  case isFalse hown =>
    cases hcheck : p.row.check with
    | false => simp [insertPair_refused hcheck]
    | true => simp [mem_keys_insertPair hcheck, hown]

theorem nodup_learn (own : List Ipv4) (h : (keys nodes).Nodup) (p : Pair) :
    (keys (learn own nodes p)).Nodup := by
  unfold learn
  split
  · exact h
  · exact nodup_insertPair h p

def learnAll (own : List Ipv4) (nodes : List Db.Row) (ps : List Pair) : List Db.Row :=
  ps.foldl (learn own) nodes

theorem prefix_learnAll (own : List Ipv4) (nodes : List Db.Row) (ps : List Pair) :
    nodes <+: learnAll own nodes ps := by
  induction ps generalizing nodes with
  | nil => exact List.prefix_rfl
  | cons p ps ih => exact (prefix_learn own nodes p).trans (ih _)

theorem mem_keys_learnAll (ps : List Pair) :
    x ∈ keys (learnAll own nodes ps) ↔
      x ∈ keys nodes ∨ ∃ p ∈ ps, Learnable own p ∧ x = p.key := by
  induction ps generalizing nodes with
  | nil => simp [learnAll]
  | cons p ps ih =>
    have hrest : x ∈ keys (learnAll own (learn own nodes p) ps) ↔
        x ∈ keys (learn own nodes p) ∨ ∃ p ∈ ps, Learnable own p ∧ x = p.key := ih
    rw [mem_keys_learn] at hrest
    simpa [learnAll, or_assoc] using hrest

theorem nodup_learnAll (own : List Ipv4) (h : (keys nodes).Nodup) (ps : List Pair) :
    (keys (learnAll own nodes ps)).Nodup := by
  induction ps generalizing nodes with
  | nil => exact h
  | cons p ps ih => exact ih (nodup_learn own h p)

-- ---------------------------------------------------------------------------
-- The loop over a reply
-- ---------------------------------------------------------------------------

theorem registerNode_entry (h : entry host node = some p) (hclean : Clean own p)
    (nodes : List Db.Row) :
    registerNode host own .ok node ⟨false, nodes⟩ = some ⟨false, learn own nodes p⟩ := by
  obtain ⟨serverAddr, hserver, rfl⟩ := Option.map_eq_some_iff.mp h
  rw [registerNode, hserver, Option.map_some, learn]
  dsimp only
  split
  · rfl
  · rename_i hown
    rw [insertNewNode_ok (p := (serverAddr, _)) (hclean.resolve_left hown)]

theorem registerNodes_entries (left i : Nat) (ps : List Pair) (db : List Db.Row)
    (hread : (List.range' i left).map (fun j => entry host (arrayGetObject nodes j)) = ps.map some)
    (hclean : ∀ p ∈ ps, Clean own p) :
    registerNodes host own (fun _ => .ok) nodes i left ⟨false, db⟩ =
      some ⟨false, learnAll own db ps⟩ := by
  induction left generalizing i ps db with
  | zero =>
    rw [List.range'_zero, List.map_nil] at hread
    rw [List.map_eq_nil_iff.mp hread.symm]
    rfl
  | succ left ih =>
    rw [List.range'_succ, List.map_cons] at hread
    cases ps with
    | nil => simp at hread
    | cons p ps =>
      obtain ⟨hp, hread⟩ := List.cons.inj hread
      rw [registerNodes, registerNode_entry hp (hclean p (List.mem_cons_self ..)), Option.bind_some,
        ih (i + 1) ps _ hread fun q hq => hclean q (List.mem_cons_of_mem p hq)]
      rfl

theorem registerReply_entries (hread : entries host reply = ps.map some)
    (hclean : ∀ p ∈ ps, Clean own p) (nodes : List Db.Row) :
    registerReply host own (fun _ => .ok) reply ⟨false, nodes⟩ =
      some ⟨false, learnAll own nodes ps⟩ := by
  refine registerNodes_entries _ 0 ps nodes ?_ hclean
  rwa [← List.range_eq_range']

theorem handleNodeInfoExchange_own (hown : isMyIp own node.serverAddr) :
    handleNodeInfoExchange host own io removeIo peer db node remove = ⟨[], some 2, db⟩ := by
  rw [handleNodeInfoExchange, if_pos hown]

theorem handleNodeInfoExchange_available (hown : isMyIp own node.serverAddr = false)
    (havailable : isGeonsHostAvailable peer = some true)
    (hregister : registerReply host own io peer.nodes db = some db') :
    handleNodeInfoExchange host own io removeIo peer db node remove =
      ⟨[node.serverAddr], some 1, db'⟩ := by
  rw [handleNodeInfoExchange, hown, if_neg Bool.false_ne_true, havailable]
  simp only [hregister]

theorem handleNodeInfoExchange_gone (hown : isMyIp own node.serverAddr = false)
    (havailable : isGeonsHostAvailable peer = some false)
    (hplain : Db.Plain node.serverAddr node.nodeGateway) :
    handleNodeInfoExchange host own io .ok peer ⟨false, nodes⟩ node true =
      ⟨[node.serverAddr], some 0,
        ⟨false, nodes.filter (!·.isNode node.serverAddr node.nodeGateway.toNat)⟩⟩ := by
  have hremove := Db.removeNode_plain hplain host.sqlite .ok ⟨false, nodes⟩
  simp only [Db.Calls.ok, if_true] at hremove
  rw [handleNodeInfoExchange, hown, if_neg Bool.false_ne_true, havailable]
  simp only [Db.Calls.ok, if_true, hremove]

-- ---------------------------------------------------------------------------
-- The list in an answer
-- ---------------------------------------------------------------------------

theorem toushort_ofNat (host : Host) (n : UInt16) : host.toUshort (.ofNat n.toNat) = n := by
  have htrunc : (Decimal.ofNat n.toNat).trunc = n.toNat := by simp [Decimal.trunc, Decimal.ofNat]
  have hlt := n.toNat_lt
  rw [Host.toUshort, htrunc, if_pos ⟨by omega, by omega⟩]
  simp

theorem entry_nodeObject (host : Host) (hutf8 : isValidUtf8 node.serverAddr)
    (hzero : (0 : UInt8) ∉ node.serverAddr) :
    entry host (some (nodeObject node)) = some (node.serverAddr, node.nodeGateway) := by
  have hstatus (o : Object) (name : Bytes) (hname : bytes "status" ≠ name) :
      objectGetValue (some (objectSetString o (bytes "status") node.status)) name =
        objectGetValue (some o) name := by
    unfold objectSetString valueInitString
    split
    · rw [objectGetValue_setValue, if_neg hname]
    · rfl
  have hserver : objectGetString (some (nodeObject node)) (bytes "server") = some node.serverAddr := by
    rw [objectGetString, nodeObject, hstatus _ _ (by decide), objectSetNumber,
      objectGetValue_setValue, if_neg (by decide)]
    rw [← objectGetString, objectGetString_setString _ _ _ _ hutf8, if_pos rfl, cstr_eq_self hzero]
  have hnode : objectGetNumber (some (nodeObject node)) (bytes "node") =
      .ofNat node.nodeGateway.toNat := by
    rw [objectGetNumber, nodeObject, hstatus _ _ (by decide), objectSetNumber,
      objectGetValue_setValue, if_pos rfl]
    rfl
  rw [entry, hserver, hnode, toushort_ofNat]
  rfl

theorem listedNodes_dataResponse (isSuccess : Bool) (message : Bytes) (nodes : List Node) :
    listedNodes (serverProtoDataResponse isSuccess message (nodesArray nodes)) =
      some (nodes.map fun node => .object (nodeObject node)) := by
  have hname : (0 : UInt8) ∉ bytes "data" := by decide
  have hparsed := jsonParseString_serialize (writable_setValue
    (writable_responseObject isSuccess message) hname (writable_nodesArray nodes)) []
  rw [List.append_nil] at hparsed
  rw [listedNodes, serverProtoDataResponse, payload, hparsed, valueGetObject, objectGetArray,
    objectGetValue_setValue, if_pos rfl]
  rfl

theorem entries_dataResponse (host : Host) (isSuccess : Bool) (message : Bytes)
    (hlen : nodes.length < 256)
    (hnodes : ∀ node ∈ nodes, isValidUtf8 node.serverAddr ∧ (0 : UInt8) ∉ node.serverAddr) :
    entries host (serverProtoDataResponse isSuccess message (nodesArray nodes)) =
      nodes.map fun node => some (node.serverAddr, node.nodeGateway) := by
  have hcount : arrayGetCount (some (nodes.map fun node => Value.object (nodeObject node))) % 256 =
      nodes.length := by
    rw [arrayGetCount, Option.getD_some, List.length_map, Nat.mod_eq_of_lt hlen]
  rw [entries, listedNodes_dataResponse, hcount]
  refine List.ext_getElem (by simp) fun i hi hi' => ?_
  have hin : i < nodes.length := by simpa using hi'
  have hnode := hnodes nodes[i] (List.getElem_mem hin)
  simp only [List.getElem_map, List.getElem_range]
  rw [← entry_nodeObject host hnode.1 hnode.2]
  simp [arrayGetObject, valueGetObject, hin]

end GeoNS.Geonsp
