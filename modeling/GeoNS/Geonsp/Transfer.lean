import GeoNS.Geonsp.Listing
import GeoNS.Geonsp.Session

/-!
# What an exchange transfers

Node `a` has an exchange with node `b`: it says hello, adds itself and asks
for the list. Every message arrives whole and the database calls go through.
-/

namespace GeoNS.Geonsp

open CString Parson Inet
open Ping (plain_of_dottedQuad toNode_serverAddr)

structure Party where
  host : Host
  own : List Ipv4
  port : UInt16
  nodes : List Db.Row

/-- `seen` is the address that `b` accepts the connection from, and `behind`
what stands after each request in its buffer. -/
structure Exchange where
  a : Party
  b : Party
  seen : Ipv4
  destination : Node
  behind : Nat → Bytes
  ping : Bool
  connect : Bool
  removeInactiveNodes : Bool

def Tidy (nodes : List Db.Row) : Prop :=
  ∀ r ∈ nodes, DottedQuad r.server ∧ 0 ≤ r.nodeGateway ∧ r.nodeGateway < 65536

namespace Exchange

variable (x : Exchange)

def answer (i : Nat) (request : Object) (db : Db.Database) : Outcome :=
  nodeServerCallback x.b.host .ok (inetNtoa x.seen) (payload request ++ x.behind i) db

def hello : Outcome := x.answer 0 constructClientHelloRequest ⟨false, x.b.nodes⟩

def added : Outcome :=
  x.answer 1 (constructAddNodeRequest x.a.port) (x.hello.after ⟨false, x.b.nodes⟩)

def listed : Outcome :=
  x.answer 2 constructGetNodesRequest (x.added.after (x.hello.after ⟨false, x.b.nodes⟩))

def remote : Db.Database :=
  x.listed.after (x.added.after (x.hello.after ⟨false, x.b.nodes⟩))

def peer : Peer := ⟨x.ping, x.connect, x.hello.response, x.listed.response⟩

def caller : Exchanged :=
  handleNodeInfoExchange x.a.host x.a.own (fun _ => .ok) .ok x.peer ⟨false, x.a.nodes⟩
    x.destination x.removeInactiveNodes

def reply : List Pair := (entries x.a.host x.listed.response).filterMap id

def self : Pair := (inetNtoa x.seen, x.a.port)

/-- Both tables have what they had, and besides only what was sent. -/
structure Transfers : Prop where
  result : x.caller.result = some 1
  remote : ∀ k, k ∈ keys x.remote.nodes ↔ k ∈ keys x.b.nodes ∨ k = x.self.key
  reply : x.reply.map Pair.key = keys ((x.remote.nodes.filter (·.status == Db.active)).take maxActiveNodes)
  caller : ∀ k, k ∈ keys x.caller.db.nodes ↔
    k ∈ keys x.a.nodes ∨ k ∈ x.reply.map Pair.key ∧ isMyIp x.a.own k.1 = false
  kept : x.a.nodes <+: x.caller.db.nodes ∧ x.b.nodes <+: x.remote.nodes
  distinct : ((keys x.a.nodes).Nodup → (keys x.caller.db.nodes).Nodup) ∧
    ((keys x.b.nodes).Nodup → (keys x.remote.nodes).Nodup)

end Exchange

-- ---------------------------------------------------------------------------
-- Tidy rows
-- ---------------------------------------------------------------------------

theorem check_of_dottedQuad (h : DottedQuad server) (port : Int) :
    Db.Row.check ⟨server, port, Db.active⟩ := by
  have hlen := (Db.lengthFrom_le false server).trans h.length_le
  simp [Db.Row.check, Db.length, hlen]

theorem toNode_nodeGateway {r : Db.Row} (h0 : 0 ≤ r.nodeGateway) (h : r.nodeGateway < 65536) :
    (r.toNode.nodeGateway.toNat : Int) = r.nodeGateway := by
  have hmod : (r.nodeGateway % 65536).toNat % 2 ^ 16 = (r.nodeGateway % 65536).toNat := by omega
  simp only [Db.Row.toNode, UInt16.toNat_ofNat', hmod]
  omega

def nodePair (node : Node) : Pair := (node.serverAddr, node.nodeGateway)

theorem key_nodePair (htidy : Tidy nodes) (hr : r ∈ nodes) : (nodePair r.toNode).key = key r := by
  obtain ⟨hquad, h0, h⟩ := htidy r hr
  rw [nodePair, Pair.key, toNode_serverAddr hquad, toNode_nodeGateway h0 h, key]

theorem utf8_of_dottedQuad (h : DottedQuad server) : isValidUtf8 server := by
  refine isValidUtf8_of_ascii fun c hc => ?_
  rcases h.mem c hc with hdigit | rfl
  · simp only [isdigit, Bool.and_eq_true, decide_eq_true_eq] at hdigit
    exact Nat.lt_of_le_of_lt hdigit.2 (by decide)
  · decide

theorem tidy_insertPair (h : Tidy nodes) (hquad : DottedQuad p.1) : Tidy (insertPair nodes p) := by
  unfold insertPair
  split
  · exact h
  · intro r hr
    rcases List.mem_append.mp hr with hr | hr
    · exact h r hr
    · cases List.mem_singleton.mp hr
      have hlt := p.2.toNat_lt
      exact ⟨hquad, by simp [Pair.row], by simp only [Pair.row]; omega⟩

theorem helloAccepted_readable (h : Readable reply object) :
    helloAccepted reply =
      (objectGetString (some object) (bytes "status")).map (startsWith · (bytes "success")) := by
  have hhas (name : Bytes) (hget : (objectGetString (some object) name).isSome) :
      objectHasValue (some object) name = true := by
    unfold objectGetString at hget
    unfold objectHasValue
    cases hvalue : objectGetValue (some object) name with
    | none => simp [hvalue, valueGetString] at hget
    | some v => rfl
  rw [helloAccepted, h.parsed]
  simp only [valueGetObject, hhas _ h.status, hhas _ h.message, Bool.and_self, if_true]

-- ---------------------------------------------------------------------------
-- The answers of the other node
-- ---------------------------------------------------------------------------

namespace Exchange

variable (x : Exchange)

theorem hello_eq :
    x.hello = .done 0 (serverProtoResponse true x.b.host.version) ⟨false, x.b.nodes⟩ := by
  rw [hello, answer, Session.handled_hello]

theorem addNodePort_eq (host : Host) (port : UInt16) :
    addNodePort host (some (constructAddNodeRequest port)) = port := by
  have hget : objectDotgetNumber (some (constructAddNodeRequest port))
      [bytes "data", bytes "node_gateway_port"] = .ofNat port.toNat := rfl
  rw [addNodePort, hget, toushort_ofNat]

/-- `ADD_NODE` inserts the pair that `a` is seen under. -/
theorem added_after : x.added.after ⟨false, x.b.nodes⟩ = ⟨false, insertPair x.b.nodes x.self⟩ := by
  have hinsert := insertNewNode_ok (p := x.self) (plain_of_dottedQuad ⟨x.seen, rfl⟩ x.a.port)
    x.b.host.sqlite x.b.nodes
  rw [added, answer, hello_eq, Session.handled_addNode, handleAddNode]
  simp only [addNodePort_eq]
  exact hinsert

def rows : List Db.Row :=
  ((insertPair x.b.nodes x.self).filter (·.status == Db.active)).take maxActiveNodes

theorem listed_eq :
    x.listed = .done 0 (serverProtoDataResponse true (bytes "Successfully fetched list of nodes.")
      (nodesArray (x.rows.map Db.Row.toNode))) ⟨false, insertPair x.b.nodes x.self⟩ := by
  have hactive := Db.getAllActiveNodes_ok x.b.host.sqlite (insertPair x.b.nodes x.self)
    (UInt8.ofNat maxActiveNodes)
  have hhello : x.hello.after ⟨false, x.b.nodes⟩ = ⟨false, x.b.nodes⟩ := by
    rw [hello_eq]
    rfl
  rw [listed, answer, hhello, added_after, Session.handled_getNodes, handleGetNodes]
  simp only [DbIo.ok, hactive]
  rfl

theorem remote_eq : x.remote = ⟨false, insertPair x.b.nodes x.self⟩ := by
  rw [remote, listed_eq]
  rfl

theorem rows_sublist : x.rows.Sublist (insertPair x.b.nodes x.self) :=
  (List.take_sublist _ _).trans List.filter_sublist

/-- `a` reads the pairs of those rows. -/
theorem entries_listed (hb : Tidy x.b.nodes) :
    entries x.a.host x.listed.response =
      ((x.rows.map Db.Row.toNode).map nodePair).map some := by
  have htidy : Tidy x.rows := fun r hr =>
    tidy_insertPair hb (p := x.self) ⟨x.seen, rfl⟩ r (x.rows_sublist.subset hr)
  have hlen : x.rows.length ≤ maxActiveNodes := List.length_take_le _ _
  have hnodes : ∀ node ∈ x.rows.map Db.Row.toNode,
      isValidUtf8 node.serverAddr ∧ (0 : UInt8) ∉ node.serverAddr := by
    intro node hnode
    obtain ⟨r, hr, rfl⟩ := List.mem_map.mp hnode
    obtain ⟨hquad, -⟩ := htidy r hr
    rw [toNode_serverAddr hquad]
    exact ⟨utf8_of_dottedQuad hquad, hquad.notMem (by decide) (by decide)⟩
  have hcount : (x.rows.map Db.Row.toNode).length < 256 := by
    rw [List.length_map]
    exact Nat.lt_of_le_of_lt hlen (by decide)
  have hread := entries_dataResponse x.a.host true (bytes "Successfully fetched list of nodes.")
    hcount hnodes
  rw [listed_eq, Outcome.response, hread]
  simp only [List.map_map]
  rfl

theorem reply_eq (hb : Tidy x.b.nodes) : x.reply = (x.rows.map Db.Row.toNode).map nodePair := by
  rw [reply, entries_listed x hb, List.filterMap_map]
  exact List.filterMap_some

theorem keys_reply (hb : Tidy x.b.nodes) : x.reply.map Pair.key = keys x.rows := by
  rw [reply_eq x hb, List.map_map, List.map_map]
  refine List.map_congr_left fun r hr => ?_
  exact key_nodePair (tidy_insertPair hb ⟨x.seen, rfl⟩) (x.rows_sublist.subset hr)

theorem dottedQuad_reply (hb : Tidy x.b.nodes) (hp : p ∈ x.reply) : DottedQuad p.1 := by
  rw [reply_eq x hb] at hp
  obtain ⟨node, hnode, rfl⟩ := List.mem_map.mp hp
  obtain ⟨r, hr, rfl⟩ := List.mem_map.mp hnode
  obtain ⟨hquad, -⟩ := tidy_insertPair hb (p := x.self) ⟨x.seen, rfl⟩ r (x.rows_sublist.subset hr)
  rwa [nodePair, toNode_serverAddr hquad]

theorem peer_nodes : x.peer.nodes = x.listed.response := by rw [peer]

theorem caller_eq (hb : Tidy x.b.nodes) (hown : isMyIp x.a.own x.destination.serverAddr = false)
    (havailable : isGeonsHostAvailable x.peer = some true) :
    x.caller = ⟨[x.destination.serverAddr], some 1, ⟨false, learnAll x.a.own x.a.nodes x.reply⟩⟩ := by
  have hread : entries x.a.host x.listed.response = x.reply.map some := by
    rw [reply_eq x hb, entries_listed x hb]
  have hclean : ∀ p ∈ x.reply, Clean x.a.own p :=
    fun p hp => .inr (plain_of_dottedQuad (dottedQuad_reply x hb hp) p.2)
  have hregister : registerReply x.a.host x.a.own (fun _ => .ok) x.peer.nodes ⟨false, x.a.nodes⟩ =
      some ⟨false, learnAll x.a.own x.a.nodes x.reply⟩ := by
    rw [peer_nodes, registerReply_entries hread hclean x.a.nodes]
  rw [caller, handleNodeInfoExchange_available hown havailable hregister]

/-- An exchange with an available node transfers what it should. -/
theorem transfers (hb : Tidy x.b.nodes)
    (hown : isMyIp x.a.own x.destination.serverAddr = false)
    (havailable : isGeonsHostAvailable x.peer = some true) : x.Transfers := by
  have hcaller := x.caller_eq hb hown havailable
  constructor
  case result => rw [hcaller]
  case remote =>
    intro k
    rw [remote_eq]
    exact mem_keys_insertPair (check_of_dottedQuad ⟨x.seen, rfl⟩ _)
  case reply =>
    rw [x.keys_reply hb, remote_eq]
    rfl
  case caller =>
    intro k
    rw [hcaller, mem_keys_learnAll]
    refine or_congr_right ⟨?_, ?_⟩
    · rintro ⟨p, hp, ⟨hmine, -⟩, rfl⟩
      exact ⟨List.mem_map_of_mem hp, hmine⟩
    · rintro ⟨hk, hmine⟩
      obtain ⟨p, hp, rfl⟩ := List.mem_map.mp hk
      exact ⟨p, hp, ⟨hmine, check_of_dottedQuad (x.dottedQuad_reply hb hp) _⟩, rfl⟩
  case kept =>
    rw [hcaller, remote_eq]
    dsimp only
    exact ⟨prefix_learnAll x.a.own x.a.nodes x.reply, prefix_insertPair x.b.nodes x.self⟩
  case distinct =>
    rw [hcaller, remote_eq]
    dsimp only
    exact ⟨fun h => nodup_learnAll x.a.own h x.reply, fun h => nodup_insertPair h x.self⟩

theorem available_of_connected (htime : ∀ c ∈ x.b.host.compileTime, c < 128) (hping : x.ping)
    (hconnect : x.connect) : isGeonsHostAvailable x.peer = some true := by
  have hutf8 := isValidUtf8_version htime
  have hstatus : objectGetString (some (responseObject true x.b.host.version)) (bytes "status") =
      some (bytes "success") := by
    rw [responseObject, objectGetString_setString _ _ _ _ hutf8, if_neg (by decide)]
    rfl
  have hread := readable_payload (writable_responseObject true x.b.host.version)
    (responseObject_keys true hutf8)
  have hhello : x.peer.hello = payload (responseObject true x.b.host.version) := by
    rw [peer, hello_eq]
    rfl
  have hup : (x.peer.ping && x.peer.connect) = true := by simp [peer, hping, hconnect]
  rw [isGeonsHostAvailable, hup, if_pos rfl, hhello, helloAccepted_readable hread, hstatus]
  decide

end Exchange

-- ---------------------------------------------------------------------------
-- An exchange of two small nodes
-- ---------------------------------------------------------------------------

def sampleExchange : Exchange where
  a := ⟨sampleHost, [⟨10, 0, 0, 1⟩], 9060, [⟨bytes "10.0.0.5", 9060, Db.active⟩]⟩
  b := ⟨sampleHost, [⟨10, 0, 0, 2⟩], 9060,
    [⟨bytes "10.0.0.5", 9060, Db.active⟩, ⟨bytes "10.0.0.6", 9061, Db.active⟩]⟩
  seen := ⟨10, 0, 0, 1⟩
  destination := ⟨bytes "10.0.0.2", 9060, Db.active⟩
  behind _ := []
  ping := true
  connect := true
  removeInactiveNodes := true

theorem transfers_sampleExchange : sampleExchange.Transfers := by
  have htidy : Tidy sampleExchange.b.nodes := by
    intro r hr
    simp only [sampleExchange, List.mem_cons, List.not_mem_nil, or_false] at hr
    rcases hr with rfl | rfl
    · exact ⟨⟨⟨10, 0, 0, 5⟩, by decide⟩, by decide, by decide⟩
    · exact ⟨⟨⟨10, 0, 0, 6⟩, by decide⟩, by decide, by decide⟩
  have htime : ∀ c ∈ sampleExchange.b.host.compileTime, c < 128 := by decide +kernel
  exact sampleExchange.transfers htidy (by decide)
    (sampleExchange.available_of_connected htime rfl rfl)

end GeoNS.Geonsp
