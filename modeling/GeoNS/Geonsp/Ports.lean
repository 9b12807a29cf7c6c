import GeoNS.Config.Startup
import GeoNS.Geonsp.Dispatch
import GeoNS.Geonsp.Reply

/-!
# Which ports are stored

A port comes in as a JSON value on two ways, is read as a number, and is converted
to 16 bits on both. What is stored is the converted number, whatever it was.
-/

namespace GeoNS.Geonsp.Ports

open CString Parson Inet
open GeoNS.Configuration (Denotes)
open Dispatch (Performs performs_of_prefix performs_or_refuses startsWith_iff)

/-- What a peer supplies is a number, and that is the port `n`. -/
def IsPort (supplied : Option Value) (n : Nat) : Prop :=
  1 ≤ n ∧ n ≤ 65535 ∧ ∃ d, supplied = some (.number d) ∧ Denotes d n

def suppliedPort (buffer : Bytes) : Option Value :=
  objectDotgetValue (valueGetObject (jsonParseString buffer)) [bytes "data", bytes "node_gateway_port"]

def suppliedNode (node : Option Object) : Option Value := objectGetValue node (bytes "node")

def readPort (host : Host) (supplied : Option Value) : UInt16 := host.toUshort (valueGetNumber supplied)

def inserted (db db' : Db.Database) : List Db.Row := db'.nodes.diff db.nodes

/-- A row is inserted for a port only, and has that. -/
def Validated (supplied : Option Value) (db db' : Db.Database) : Prop :=
  ∀ r ∈ inserted db db', ∃ n, IsPort supplied n ∧ r.nodeGateway = n

structure Reaches (io : DbIo) (buffer : Bytes) : Prop where
  named : ∃ method, methodOf buffer = some method ∧ geonspMsgAddNode <+: method
  opened : io.opened
  connected : io.connected
  configured : io.configured

structure Sent (sqlite : Db.Sqlite) (io : Db.Calls) (db : Db.Database) (server : Bytes) (port : UInt16) :
    Prop where
  isLocal : db.isLedger = false
  noRow : Db.selectNode sqlite io db server port = .noRow
  executed : io.exec

/-- Where the server is read as one literal, an insertion is one of a port; else what
SQLite makes of the text decides. -/
def InsertsPort (sqlite : Db.Sqlite) (io : Db.Calls) (db : Db.Database) (server : Bytes)
    (port : UInt16) (supplied : Option Value) : Prop :=
  if Db.Plain server port then Db.Adds io db server port → ∃ n, IsPort supplied n
  else
    Sent sqlite io db server port →
      ∀ r ∈ (sqlite.run (Db.sqlQuery (Db.insertText server port)) db.nodes).2.diff db.nodes,
        ∃ n, IsPort supplied n ∧ r.nodeGateway = n

-- ---------------------------------------------------------------------------
-- One insertion
-- ---------------------------------------------------------------------------

theorem isPort_readPort (h : IsPort supplied n) (host : Host) : (readPort host supplied).toNat = n := by
  obtain ⟨-, hle, d, rfl, hd⟩ := h
  exact Configuration.toushort_of_denotes host hd (by omega)

theorem append_diff_self (nodes new : List Db.Row) : (nodes ++ new).diff nodes = new := by
  induction nodes with
  | nil => rfl
  | cons n nodes ih => rw [List.diff_cons, List.cons_append, List.erase_cons_head, ih]

theorem inserted_append (db : Db.Database) (new : List Db.Row) :
    inserted db { db with nodes := db.nodes ++ new } = new := append_diff_self db.nodes new

theorem inserted_self (db : Db.Database) : inserted db db = [] := by
  have hnone := inserted_append db []
  rwa [List.append_nil] at hnone

theorem validated_self (supplied : Option Value) (db : Db.Database) : Validated supplied db db := by
  rintro r hr
  rw [inserted_self] at hr
  contradiction

theorem validated_plain_iff {host : Host} (hplain : Db.Plain server (readPort host supplied))
    (sqlite : Db.Sqlite) (io : Db.Calls) (db : Db.Database) :
    Validated supplied db (Db.insertNewNode sqlite io db server (readPort host supplied)).2 ↔
      (Db.Adds io db server (readPort host supplied) → ∃ n, IsPort supplied n) := by
  by_cases hadds : Db.Adds io db server (readPort host supplied)
  · rw [Db.insertNewNode_adds hplain hadds, Validated, inserted_append, List.forall_mem_singleton]
    constructor
    · rintro ⟨n, hn, -⟩ _
      exact ⟨n, hn⟩
    · intro h
      obtain ⟨n, hn⟩ := h hadds
      exact ⟨n, hn, by rw [isPort_readPort hn]⟩
  · rw [Db.insertNewNode_not_adds hplain hadds]
    exact iff_of_true (validated_self supplied db) fun h => absurd h hadds

theorem insertNewNode_sent (h : Sent sqlite io db server port) :
    (Db.insertNewNode sqlite io db server port).2 =
      { db with nodes := (sqlite.run (Db.sqlQuery (Db.insertText server port)) db.nodes).2 } := by
  simp only [Db.insertNewNode, h.isLocal, h.noRow, Db.insertRow, Db.dbExec, h.executed,
    Bool.false_eq_true, if_false, if_true]

theorem insertNewNode_not_sent (h : ¬ Sent sqlite io db server port) :
    (Db.insertNewNode sqlite io db server port).2 = db := by
  unfold Db.insertNewNode
  split
  · rfl
  rename_i hlocal
  split
  · rfl
  · rfl
  rename_i hnone
  unfold Db.insertRow Db.dbExec
  split
  · rename_i hexecuted
    exact absurd ⟨by simpa using hlocal, hnone, hexecuted⟩ h
  · rfl

theorem validated_insertNewNode_iff (host : Host) (sqlite : Db.Sqlite) (io : Db.Calls) (db : Db.Database)
    (server : Bytes) (supplied : Option Value) :
    Validated supplied db (Db.insertNewNode sqlite io db server (readPort host supplied)).2 ↔
      InsertsPort sqlite io db server (readPort host supplied) supplied := by
  unfold InsertsPort
  split
  case isTrue hplain => exact validated_plain_iff hplain sqlite io db
  by_cases hsent : Sent sqlite io db server (readPort host supplied)
  · rw [insertNewNode_sent hsent]
    exact ⟨fun h _ => h, fun h => h hsent⟩
  · rw [insertNewNode_not_sent hsent]
    exact iff_of_true (validated_self supplied db) fun h => absurd h hsent

-- ---------------------------------------------------------------------------
-- The two ways
-- ---------------------------------------------------------------------------

theorem after_handleAddNode (hopened : io.opened) (hconnected : io.connected) (hconfigured : io.configured)
    (host : Host) (clientAddr buffer : Bytes) (db : Db.Database) :
    (handleAddNode host io clientAddr (valueGetObject (jsonParseString buffer)) db).after db =
      (Db.insertNewNode host.sqlite io.calls db clientAddr (readPort host (suppliedPort buffer))).2 := by
  simp only [handleAddNode, hopened, hconnected, hconfigured, Bool.not_true, Bool.false_eq_true, if_false]
  rfl

theorem after_reaches (h : Reaches io buffer) (host : Host) (clientAddr : Bytes) (db : Db.Database) :
    (nodeServerCallback host io clientAddr buffer db).after db =
      (Db.insertNewNode host.sqlite io.calls db clientAddr (readPort host (suppliedPort buffer))).2 := by
  obtain ⟨⟨method, hmethod, hname⟩, hopened, hconnected, hconfigured⟩ := h
  have hperforms : Performs buffer .addNode := performs_of_prefix hmethod hname
  rw [hperforms]
  exact after_handleAddNode hopened hconnected hconfigured host clientAddr buffer db

theorem after_handleGetNodes (host : Host) (io : DbIo) (db : Db.Database) :
    (handleGetNodes host io db).after db = db := by
  cases houtcome : handleGetNodes host io db with
  | done result response db' => exact handleGetNodes_db houtcome
  | exit => rfl
  | fault => rfl

theorem after_handleAddNode_failed (h : ¬ (io.opened ∧ io.connected ∧ io.configured)) (host : Host)
    (clientAddr : Bytes) (request : Option Object) (db : Db.Database) :
    (handleAddNode host io clientAddr request db).after db = db := by
  unfold handleAddNode
  split
  · rfl
  split
  · rfl
  split
  · rfl
  · simp_all

theorem after_not_reaches (h : ¬ Reaches io buffer) (host : Host) (clientAddr : Bytes) (db : Db.Database) :
    (nodeServerCallback host io clientAddr buffer db).after db = db := by
  by_cases htyped : MethodIsString buffer
  · rcases performs_or_refuses htyped with ⟨op, chars, hvalue, hop, hperforms⟩ | ⟨response, -, hdone⟩
    · rw [hperforms]
      cases op with
      | getVersion => rfl
      | getNodes => exact after_handleGetNodes host io db
      | addNode =>
        apply after_handleAddNode_failed
        rintro ⟨hopened, hconnected, hconfigured⟩
        have hname := (Dispatch.prefix_cstr_iff .addNode chars).mpr hop
        exact h ⟨⟨_, Dispatch.methodOf_string hvalue, hname⟩, hopened, hconnected, hconfigured⟩
    · rw [hdone]
      rfl
  · simp only [MethodIsString, not_forall, not_exists] at htyped
    obtain ⟨v, hvalue, hv⟩ := htyped
    rw [nodeServerCallback_untyped hvalue hv]
    rfl

theorem validated_addNode_iff (host : Host) (io : DbIo) (clientAddr buffer : Bytes) (db : Db.Database) :
    Validated (suppliedPort buffer) db ((nodeServerCallback host io clientAddr buffer db).after db) ↔
      (Reaches io buffer → InsertsPort host.sqlite io.calls db clientAddr
        (readPort host (suppliedPort buffer)) (suppliedPort buffer)) := by
  by_cases hreaches : Reaches io buffer
  · rw [after_reaches hreaches, validated_insertNewNode_iff]
    exact ⟨fun h _ => h, fun h => h hreaches⟩
  · rw [after_not_reaches hreaches]
    exact iff_of_true (validated_self _ db) fun h => absurd h hreaches

theorem validated_registerNode_iff (host : Host) (own : List Ipv4) (calls : Db.Calls)
    (node : Option Object) (db : Db.Database) :
    Validated (suppliedNode node) db ((registerNode host own calls node db).getD db) ↔
      ∀ server, objectGetString node (bytes "server") = some server → isMyIp own server = false →
        InsertsPort host.sqlite calls db server (readPort host (suppliedNode node)) (suppliedNode node) := by
  unfold registerNode
  cases hserver : objectGetString node (bytes "server") with
  | none => exact iff_of_true (validated_self _ db) fun server h => nomatch h
  | some server =>
    simp only [Option.map_some, Option.getD_some, Option.some.injEq, forall_eq']
    cases hown : isMyIp own server with
    | true => simpa using validated_self (suppliedNode node) db
    | false =>
      rw [if_neg Bool.false_ne_true]
      exact (validated_insertNewNode_iff ..).trans ⟨fun h _ => h, fun h => h rfl⟩

/-- On both ways a row is inserted for the port that was supplied, and for no other
value, exactly where none but a port gets as far as an insertion. -/
theorem validated_iff_port (host : Host) :
    (∀ io clientAddr buffer db,
      Validated (suppliedPort buffer) db ((nodeServerCallback host io clientAddr buffer db).after db) ↔
        (Reaches io buffer → InsertsPort host.sqlite io.calls db clientAddr
          (readPort host (suppliedPort buffer)) (suppliedPort buffer))) ∧
      ∀ own calls node db,
        Validated (suppliedNode node) db ((registerNode host own calls node db).getD db) ↔
          ∀ server, objectGetString node (bytes "server") = some server → isMyIp own server = false →
            InsertsPort host.sqlite calls db server (readPort host (suppliedNode node)) (suppliedNode node) :=
  ⟨validated_addNode_iff host, validated_registerNode_iff host⟩

-- ---------------------------------------------------------------------------
-- A missing port and a fraction
-- ---------------------------------------------------------------------------

def portless : Bytes := bytes "\x7b\"method\":\"ADD_NODE\"\x7d"

def fractionReply : Bytes := bytes "\x7b\"data\":[\x7b\"server\":\"10.0.0.7\",\"node\":80.5\x7d]\x7d"

def fractionElement : Option Object := arrayGetObject (Ping.listedNodes fractionReply) 0

/-- A missing port is stored as 0, and a fraction is cut off. -/
theorem not_validated_portless :
    let db := ⟨false, []⟩
    (nodeServerCallback sampleHost .ok (bytes "10.0.0.5") portless db).after db =
        ⟨false, [⟨bytes "10.0.0.5", 0, Db.active⟩]⟩ ∧
      ¬ Validated (suppliedPort portless) db
        ((nodeServerCallback sampleHost .ok (bytes "10.0.0.5") portless db).after db) ∧
      registerNode sampleHost [] .ok fractionElement db =
        some ⟨false, [⟨bytes "10.0.0.7", 80, Db.active⟩]⟩ ∧
      ¬ Validated (suppliedNode fractionElement) db
        ((registerNode sampleHost [] .ok fractionElement db).getD db) := by
  have hportless : (nodeServerCallback sampleHost .ok (bytes "10.0.0.5") portless ⟨false, []⟩).after
      ⟨false, []⟩ = ⟨false, [⟨bytes "10.0.0.5", 0, Db.active⟩]⟩ := by decide +kernel
  have hfraction : registerNode sampleHost [] .ok fractionElement ⟨false, []⟩ =
      some ⟨false, [⟨bytes "10.0.0.7", 80, Db.active⟩]⟩ := by decide +kernel
  have hmissing : (suppliedPort portless).isNone := by decide +kernel
  have hnumber : valueGetNumber (suppliedNode fractionElement) = ⟨805, -1⟩ := by decide +kernel
  refine ⟨hportless, ?_, hfraction, ?_⟩
  · rw [hportless, Option.isNone_iff_eq_none.mp hmissing]
    intro h
    obtain ⟨n, ⟨-, -, d, hd, -⟩, -⟩ := h ⟨bytes "10.0.0.5", 0, Db.active⟩ (by decide)
    exact nomatch hd
  · rw [hfraction]
    intro h
    obtain ⟨n, ⟨-, -, d, hd, hdenotes⟩, -⟩ := h ⟨bytes "10.0.0.7", 80, Db.active⟩ (by decide)
    rw [hd] at hnumber
    obtain rfl : d = ⟨805, -1⟩ := hnumber
    have htrunc : (80 : Int) = n := Configuration.trunc_of_denotes hdenotes
    obtain rfl : n = 80 := by omega
    exact absurd hdenotes (by decide)

end GeoNS.Geonsp.Ports
