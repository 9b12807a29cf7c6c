import GeoNS.Runs
import GeoNS.Db.Faithful
import GeoNS.Geonsp.Protocol

/-!
# What reaches the shell

The addresses of the nodes table end up in a `ping` command. They come in on
two ways: from the socket of an `ADD_NODE`, and from the list in a peer's
reply, which nothing validates.
-/

namespace GeoNS.Geonsp.Ping

open CString Parson Inet Runs

def initNodes : List Node :=
  [⟨bytes "0.0.0.0", 9060, bytes "active"⟩, ⟨bytes "172.17.0.1", 9060, bytes "active"⟩,
    ⟨bytes "172.20.0.10", 9060, bytes "active"⟩, ⟨bytes "172.20.0.11", 9060, bytes "active"⟩,
    ⟨bytes "172.20.0.12", 9060, bytes "active"⟩]

/-- `loaded` are the nodes that passes over the local database have read and
not yet visited; `pinged` logs the addresses put into a command. -/
structure State where
  alive : Bool
  nodes : List Db.Row
  loaded : List Node
  pinged : List Bytes

structure ExchangeIo where
  peer : Peer
  inserts : InsertIo
  remove : Db.Calls

inductive Label
  | request (addr : Ipv4) (buffer : Bytes) (io : DbIo)
  | exchange (init : Nat) (io : ExchangeIo)
  | load (io : Db.NodeCalls)
  | visit (io : ExchangeIo)

section
variable (host : Host) (own : List Ipv4)

def State.exchange (s : State) (node : Node) (removeInactive : Bool) (io : ExchangeIo) : State :=
  let e := handleNodeInfoExchange host own io.inserts io.remove io.peer ⟨false, s.nodes⟩ node
    removeInactive
  { s with alive := e.result.isSome, nodes := e.db.nodes, pinged := s.pinged ++ e.pinged }

/-- A request on the gateway, an exchange with one of `initNodes`, or a step
of `connect_localdb_node_servers`: it loads the active nodes, and has an
exchange with one node after the other. -/
def step (s : State) : Label → Option State
  | .request addr buffer io =>
    if s.alive then
      match nodeServerCallback host io (inetNtoa addr) buffer ⟨false, s.nodes⟩ with
      | .done _ _ db => some { s with nodes := db.nodes }
      | _ => some { s with alive := false }
    else none
  | .exchange i io =>
    if s.alive then initNodes[i]?.map fun node => s.exchange host own node false io else none
  | .load io =>
    if s.alive then
      (Db.getAllActiveNodes host.sqlite io ⟨false, s.nodes⟩ (UInt8.ofNat maxActiveNodes)).map
        fun nodes => { s with loaded := s.loaded ++ nodes }
    else none
  | .visit io =>
    match s.loaded with
    | [] => none
    | node :: rest =>
      if s.alive then some ({ s with loaded := rest }.exchange host own node true io) else none

def begin : State := ⟨true, [], [], []⟩

end

-- ---------------------------------------------------------------------------
-- The command
-- ---------------------------------------------------------------------------

/-- The command for `addr` is whole, is made of the words it is meant to be
made of, and takes nothing but digits and dots from the address. -/
structure Safe (addr : Bytes) : Prop where
  quad : DottedQuad addr
  plain : ∀ c ∈ addr, isdigit c ∨ c = 46
  words : strtok 32 (pingCommand addr) =
    [bytes "ping", bytes "-c", bytes "1", addr, bytes ">", bytes "/dev/null", bytes "2>&1"]

theorem safe_of_dottedQuad (h : DottedQuad addr) : Safe addr where
  quad := h
  plain := h.mem
  words := by
    have hlen := h.length_le
    have hwhole : pingCommand addr = pingText addr := by
      rw [pingCommand, snprintf_eq_self_iff (by decide)]
      simp only [pingText, List.length_append]
      have hhead : (bytes "ping -c 1 ").length = 10 := rfl
      have htail : (bytes " > /dev/null 2>&1").length = 17 := rfl
      omega
    have hhead : bytes "ping -c 1 " = bytes "ping -c 1" ++ 32 :: [] := rfl
    have htail : bytes " > /dev/null 2>&1" = 32 :: bytes "> /dev/null 2>&1" := rfl
    have hfirst : strtok 32 (bytes "ping -c 1") = [bytes "ping", bytes "-c", bytes "1"] := by decide
    have hlast : strtok 32 (bytes "> /dev/null 2>&1") =
        [bytes ">", bytes "/dev/null", bytes "2>&1"] := by decide
    rw [hwhole, pingText, hhead, htail, List.append_assoc, List.cons_append, List.nil_append,
      strtok_append_delim, strtok_append_delim, hfirst, hlast,
      strtok_word (h.notMem (by decide) (by decide)) h.ne_nil]
    rfl

-- ---------------------------------------------------------------------------
-- Rows stay dotted quads
-- ---------------------------------------------------------------------------

theorem plain_of_dottedQuad (h : DottedQuad server) (port : UInt16) : Db.Plain server port := by
  refine ⟨h.notMem (by decide) (by decide), ?_⟩
  have hlen := h.length_le
  have htext := Db.length_insertText_le server port
  simp only [maxSqlQuerySize]
  omega

/-- An address that may be listed: one that is not inserted because it is the
node's own, a dotted quad, or one that the `CHECK` of the table refuses. -/
def Harmless (own : List Ipv4) (server : Bytes) : Prop :=
  isMyIp own server ∨ DottedQuad server ∨ (∀ port, Db.Plain server port) ∧ 15 < Db.length server

def listedNodes (reply : Bytes) : Option (List Value) :=
  objectGetArray (valueGetObject (jsonParseString reply)) (bytes "data")

def Listed (reply server : Bytes) : Prop :=
  ∃ i < arrayGetCount (listedNodes reply) % 256,
    objectGetString (arrayGetObject (listedNodes reply) i) (bytes "server") = some server

def Quads (nodes : List Db.Row) : Prop := ∀ r ∈ nodes, DottedQuad r.server

theorem quads_insertNewNode (hdb : Quads db.nodes)
    (h : DottedQuad server ∨ Db.Plain server port ∧ 15 < Db.length server) :
    Quads (Db.insertNewNode sqlite io db server port).2.nodes := by
  rcases h with hquad | ⟨hplain, hlong⟩
  · rcases Db.insertNewNode_inserted (plain_of_dottedQuad hquad port) sqlite io db with
      ⟨-, hsame⟩ | ⟨-, hmore⟩
    · rwa [hsame]
    · intro r hr
      rw [hmore] at hr
      rcases List.mem_append.mp hr with hr | hr
      · exact hdb r hr
      · rw [List.mem_singleton.mp hr]
        exact hquad
  · rwa [Db.insertNewNode_long hplain hlong]

theorem quads_removeNode (hdb : Quads db.nodes) (h : DottedQuad server) :
    Quads (Db.removeNode sqlite io db server port).2.nodes := by
  rw [Db.removeNode_plain (plain_of_dottedQuad h port)]
  split
  · intro r hr
    exact hdb r (List.mem_filter.mp hr).1
  · exact hdb

theorem quads_registerNodes (left i : Nat) (db db' : Db.Database)
    (hlisted : ∀ j < left, ∀ server,
      objectGetString (arrayGetObject nodes (i + j)) (bytes "server") = some server →
        Harmless own server)
    (hdb : Quads db.nodes) (h : registerNodes host own io nodes i left db = some db') :
    Quads db'.nodes := by
  induction left generalizing i db with
  | zero =>
    cases h
    exact hdb
  | succ left ih =>
    obtain ⟨next, hnext, hrest⟩ := Option.bind_eq_some_iff.mp h
    obtain ⟨server, hserver, rfl⟩ := Option.map_eq_some_iff.mp hnext
    have hharmless := hlisted 0 (Nat.succ_pos left) server hserver
    refine ih (i + 1) _ (fun j hj server hs => ?_) ?_ hrest
    · refine hlisted (j + 1) (by omega) server ?_
      rwa [show i + (j + 1) = i + 1 + j by omega]
    · split
      · exact hdb
      · rename_i hmine
        rcases hharmless with hown | hquad | ⟨hplain, hlong⟩
        · exact absurd hown hmine
        · exact quads_insertNewNode hdb (.inl hquad)
        · exact quads_insertNewNode hdb (.inr ⟨hplain _, hlong⟩)

theorem quads_registerReply (hlisted : ∀ server, Listed reply server → Harmless own server)
    (hdb : Quads db.nodes) (h : registerReply host own io reply db = some db') :
    Quads db'.nodes := by
  refine quads_registerNodes _ 0 db db' (fun j hj server hs => ?_) hdb h
  exact hlisted server ⟨j, hj, by simpa [listedNodes] using hs⟩

theorem quads_handleNodeInfoExchange
    (hlisted : ∀ server, Listed peer.nodes server → Harmless own server)
    (hdb : Quads db.nodes) (hnode : DottedQuad node.serverAddr) :
    Quads (handleNodeInfoExchange host own io removeIo peer db node remove).db.nodes := by
  unfold handleNodeInfoExchange
  split
  · exact hdb
  split
  · exact hdb
  · split
    · exact hdb
    · rename_i hregister
      exact quads_registerReply hlisted hdb hregister
  · split
    · exact quads_removeNode hdb hnode
    · exact hdb

theorem mem_pinged (h : addr ∈ (handleNodeInfoExchange host own io removeIo peer db node remove).pinged) :
    addr = node.serverAddr := by
  unfold handleNodeInfoExchange at h
  split at h
  · nomatch h
  split at h
  · exact List.mem_singleton.mp h
  · split at h <;> exact List.mem_singleton.mp h
  · split at h <;> exact List.mem_singleton.mp h

theorem quads_nodeServerCallback (hdb : Quads db.nodes) (hclient : DottedQuad clientAddr)
    (h : nodeServerCallback host io clientAddr buffer db = .done result response db') :
    Quads db'.nodes := by
  rcases nodeServerCallback_db h with rfl | ⟨port, rfl⟩
  · exact hdb
  · exact quads_insertNewNode hdb (.inl hclient)

theorem toNode_serverAddr {r : Db.Row} (h : DottedQuad r.server) :
    r.toNode.serverAddr = r.server := by
  have hlen := h.length_le
  have hcstr : cstr r.server = r.server := cstr_eq_self (h.notMem (by decide) (by decide))
  simp only [Db.Row.toNode, hcstr, maxIpv6Length]
  exact List.take_of_length_le (by omega)

theorem quads_collectNodes (hrows : Quads rows) (h : Db.collectNodes io i rows = some nodes) :
    ∀ node ∈ nodes, DottedQuad node.serverAddr := by
  induction rows generalizing i nodes with
  | nil =>
    cases h
    simp
  | cons r rows ih =>
    obtain ⟨hr, hrest⟩ := List.forall_mem_cons.mp hrows
    unfold Db.collectNodes at h
    split at h
    · split at h
      · obtain ⟨rest, hcollect, rfl⟩ := Option.map_eq_some_iff.mp h
        refine List.forall_mem_cons.mpr ⟨?_, ih hrest hcollect⟩
        rwa [toNode_serverAddr hr]
      · contradiction
    · cases h
      simp

theorem quads_getAllActiveNodes (hdb : Quads db.nodes)
    (h : Db.getAllActiveNodes sqlite io db size = some nodes) :
    ∀ node ∈ nodes, DottedQuad node.serverAddr := by
  unfold Db.getAllActiveNodes at h
  split at h
  · contradiction
  · rw [Db.rows_activeText, Option.bind_some] at h
    refine quads_collectNodes (fun r hr => ?_) h
    exact hdb r (List.mem_filter.mp (List.mem_of_mem_take hr)).1

-- ---------------------------------------------------------------------------
-- Runs
-- ---------------------------------------------------------------------------

/-- The addresses listed in a reply are harmless. -/
def HarmlessReply (own : List Ipv4) (_ : State) : Label → Prop
  | .exchange _ io | .visit io => ∀ server, Listed io.peer.nodes server → Harmless own server
  | _ => True

structure Inv (s : State) : Prop where
  nodes : Quads s.nodes
  loaded : ∀ node ∈ s.loaded, DottedQuad node.serverAddr
  pinged : ∀ addr ∈ s.pinged, DottedQuad addr

theorem inv_begin : Inv begin where
  nodes _ h := nomatch h
  loaded _ h := nomatch h
  pinged _ h := nomatch h

theorem dottedQuad_initNodes : ∀ node ∈ initNodes, DottedQuad node.serverAddr := by
  intro node hnode
  simp only [initNodes, List.mem_cons, List.not_mem_nil, or_false] at hnode
  rcases hnode with rfl | rfl | rfl | rfl | rfl
  · exact ⟨⟨0, 0, 0, 0⟩, by decide⟩
  · exact ⟨⟨172, 17, 0, 1⟩, by decide⟩
  · exact ⟨⟨172, 20, 0, 10⟩, by decide⟩
  · exact ⟨⟨172, 20, 0, 11⟩, by decide⟩
  · exact ⟨⟨172, 20, 0, 12⟩, by decide⟩

theorem Inv.exchange (hinv : Inv s) (hnode : DottedQuad node.serverAddr)
    (hlisted : ∀ server, Listed io.peer.nodes server → Harmless own server) (remove : Bool) :
    Inv (s.exchange host own node remove io) where
  nodes := quads_handleNodeInfoExchange hlisted hinv.nodes hnode
  loaded := hinv.loaded
  pinged addr h := by
    rcases List.mem_append.mp h with h | h
    · exact hinv.pinged addr h
    · exact mem_pinged h ▸ hnode

theorem Inv.step (hinv : Inv s) (hc : HarmlessReply own s l) (h : step host own s l = some t) :
    Inv t := by
  cases l with
  | request addr buffer io =>
    simp only [Ping.step] at h
    split at h
    case isFalse => contradiction
    split at h
    · rename_i hdone
      cases h
      exact ⟨quads_nodeServerCallback hinv.nodes ⟨addr, rfl⟩ hdone, hinv.loaded, hinv.pinged⟩
    · cases h
      exact ⟨hinv.nodes, hinv.loaded, hinv.pinged⟩
  | exchange i io =>
    simp only [Ping.step] at h
    split at h
    case isFalse => contradiction
    obtain ⟨node, hnode, rfl⟩ := Option.map_eq_some_iff.mp h
    exact hinv.exchange (dottedQuad_initNodes node (List.mem_of_getElem? hnode)) hc false
  | load io =>
    simp only [Ping.step] at h
    split at h
    case isFalse => contradiction
    obtain ⟨nodes, hnodes, rfl⟩ := Option.map_eq_some_iff.mp h
    refine ⟨hinv.nodes, fun node hnode => ?_, hinv.pinged⟩
    rcases List.mem_append.mp hnode with hnode | hnode
    · exact hinv.loaded node hnode
    · exact quads_getAllActiveNodes hinv.nodes hnodes node hnode
  | visit io =>
    simp only [Ping.step] at h
    split at h
    · contradiction
    · rename_i node rest hloaded
      split at h
      case isFalse => contradiction
      cases h
      obtain ⟨hnode, hrest⟩ := List.forall_mem_cons.mp (hloaded ▸ hinv.loaded)
      have hrest : Inv { s with loaded := rest } := ⟨hinv.nodes, hrest, hinv.pinged⟩
      exact hrest.exchange hnode hc true

theorem pinged_safe (hrun : run (step host own) begin ls = some t)
    (hc : Each (step host own) (HarmlessReply own) begin ls) : ∀ addr ∈ t.pinged, Safe addr := by
  have hinv : Inv t := invariant_each (fun _ _ _ hc hi hs => hi.step hc hs) hrun hc inv_begin
  exact fun addr h => safe_of_dottedQuad (hinv.pinged addr h)

/-- A peer that is up and lists one node, under the given address. -/
def listing (server : String) : ExchangeIo where
  peer :=
    { ping := true
      connect := true
      hello := bytes "\x7b\"status\":\"success\",\"message\":\"\"\x7d"
      nodes := bytes ("\x7b\"data\":[\x7b\"server\":\"" ++ server ++ "\",\"node\":9060\x7d]\x7d") }
  inserts _ := .ok
  remove := .ok

/-- The listed node is stored, loaded and visited. -/
def visitListed (server : String) : List Label :=
  [.exchange 1 (listing server), .load .ok, .visit (listing server)]

theorem pinged_safe_quad :
    ∃ t, run (step ⟨[], .strict, fun _ => 0⟩ []) begin (visitListed "10.0.0.7") = some t ∧
      ∀ addr ∈ t.pinged, Safe addr := by
  have hrun : (run (step ⟨[], .strict, fun _ => 0⟩ []) begin (visitListed "10.0.0.7")).isSome := by
    decide +kernel
  have hcount : arrayGetCount (listedNodes (listing "10.0.0.7").peer.nodes) % 256 = 1 := by
    decide +kernel
  have hserver : objectGetString (arrayGetObject (listedNodes (listing "10.0.0.7").peer.nodes) 0)
      (bytes "server") = some (inetNtoa ⟨10, 0, 0, 7⟩) := by
    decide +kernel
  have hlisted : ∀ server, Listed (listing "10.0.0.7").peer.nodes server → Harmless [] server := by
    rintro server ⟨i, hi, hs⟩
    rw [hcount, Nat.lt_one_iff] at hi
    rw [hi, hserver, Option.some.injEq] at hs
    exact .inr (.inl ⟨_, hs.symm⟩)
  obtain ⟨t, ht⟩ := Option.isSome_iff_exists.mp hrun
  exact ⟨t, ht, pinged_safe ht
    ⟨hlisted, fun _ _ => ⟨trivial, fun _ _ => ⟨hlisted, fun _ _ => trivial⟩⟩⟩⟩

theorem not_pinged_safe_command :
    ∃ t, run (step ⟨[], .strict, fun _ => 0⟩ []) begin (visitListed "x;reboot") = some t ∧
      bytes "x;reboot" ∈ t.pinged ∧
      pingCommand (bytes "x;reboot") = bytes "ping -c 1 x;reboot > /dev/null 2>&1" ∧
      ¬ ∀ addr ∈ t.pinged, Safe addr := by
  have hrun : (run (step ⟨[], .strict, fun _ => 0⟩ []) begin (visitListed "x;reboot")).map
      (·.pinged) = some [bytes "172.17.0.1", bytes "x;reboot"] := by
    decide +kernel
  obtain ⟨t, ht, hpinged⟩ := Option.map_eq_some_iff.mp hrun
  have hmem : bytes "x;reboot" ∈ t.pinged := by simp [hpinged]
  refine ⟨t, ht, hmem, by decide, fun h => ?_⟩
  have hplain := (h _ hmem).plain 59 (by decide)
  revert hplain
  decide

end GeoNS.Geonsp.Ping
