import GeoNS.Db.Table
import GeoNS.Inet
import GeoNS.Parson.Parser

/-!
# The node protocol

The requests a node sends, the handler of the node gateway, and the three
exchanges a node has with another one. Messages are C strings; a NULL pointer
that the C library is handed is a fault.
-/

namespace GeoNS.Geonsp

open CString Parson Inet

def geonspMsgGetVersion : Bytes := bytes "GET_VERSION"
def geonspMsgAddNode : Bytes := bytes "ADD_NODE"
def geonspMsgGetNodes : Bytes := bytes "GET_NODES"
def geonspMsgClientHello : Bytes := geonspMsgGetVersion

/-- What the program is built and run with: the time of the build, SQLite, and
what the conversion of an out-of-range number to `unsigned short` gives. -/
structure Host where
  compileTime : Bytes
  sqlite : Db.Sqlite
  wrap : Decimal → UInt16

def Host.toUshort (host : Host) (d : Decimal) : UInt16 :=
  if 0 ≤ d.trunc ∧ d.trunc < 65536 then UInt16.ofNat d.trunc.toNat else host.wrap d

/-- The outcomes of the database calls of one request. `configured` tells that
the query of `isGeonsConfigured`, which `dbConnect` ends with, compiles: where
it does not, the handle is closed and freed, and used again. -/
structure DbIo where
  opened : Bool
  connected : Bool
  configured : Bool
  calls : Db.Calls
  nodes : Db.NodeCalls

def DbIo.ok : DbIo := ⟨true, true, true, .ok, .ok⟩

-- ---------------------------------------------------------------------------
-- Requests
-- ---------------------------------------------------------------------------

def constructBaseGeonspMessage (geonspMessage : Bytes) : Object :=
  objectSetString [] (bytes "method") geonspMessage

def constructAddNodeRequest (nodeGatewayPort : UInt16) : Object :=
  objectDotsetNumber (constructBaseGeonspMessage geonspMsgAddNode) (bytes "data")
    (bytes "node_gateway_port") nodeGatewayPort.toNat

def constructGetNodesRequest : Object := constructBaseGeonspMessage geonspMsgGetNodes

def constructClientHelloRequest : Object := constructBaseGeonspMessage geonspMsgClientHello

def payload (request : Object) : Bytes := serialize (.object request)

-- ---------------------------------------------------------------------------
-- The gateway's handler
-- ---------------------------------------------------------------------------

def responseObject (isSuccess : Bool) (message : Bytes) : Object :=
  objectSetString (objectSetString [] (bytes "status") (bytes (if isSuccess then "success" else "failed")))
    (bytes "message") message

def serverProtoResponse (isSuccess : Bool) (message : Bytes) : Bytes :=
  payload (responseObject isSuccess message)

def serverProtoDataResponse (isSuccess : Bool) (message : Bytes) (data : Value) : Bytes :=
  payload (objectSetValue (responseObject isSuccess message) (bytes "data") (some data))

def Host.version (host : Host) : Bytes :=
  snprintf 128 (bytes "GeoNS v0.1.0 " ++ host.compileTime)

def nodeObject (node : Node) : Object :=
  objectSetString
    (objectSetNumber (objectSetString [] (bytes "server") node.serverAddr) (bytes "node")
      node.nodeGateway.toNat)
    (bytes "status") node.status

def nodesArray (nodes : List Node) : Value := .array (nodes.map fun node => .object (nodeObject node))

/-- How the handler ends: with a result and one response sent, with the
process, or in a fault. -/
inductive Outcome
  | done (result : Int) (response : Bytes) (db : Db.Database)
  | exit
  | fault
  deriving DecidableEq

def Outcome.response : Outcome → Bytes
  | .done _ response _ => response
  | _ => []

def Outcome.after (db : Db.Database) : Outcome → Db.Database
  | .done _ _ db => db
  | _ => db

/-- `!strncmp(s, name, strlen(name))` -/
def startsWith (s name : Bytes) : Bool := name.isPrefixOf s

def handleGetNodes (host : Host) (io : DbIo) (db : Db.Database) : Outcome :=
  if !io.opened then .done 0 (serverProtoResponse false (bytes "Failed fetching nodes from database")) db
  else if !io.connected then .exit
  else if !io.configured then .fault
  else
    match Db.getAllActiveNodes host.sqlite io.nodes db (UInt8.ofNat maxActiveNodes) with
    | some nodes =>
      .done 0 (serverProtoDataResponse true (bytes "Successfully fetched list of nodes.")
        (nodesArray nodes)) db
    | none => .done 0 (serverProtoResponse false (bytes "Failed fetching nodes from database")) db

def addNodeResponse (insertNode : UInt8) : Bytes :=
  if insertNode = 0 then serverProtoResponse false (bytes "There was a db error inserting new node.")
  else if insertNode = 2 then serverProtoResponse false (bytes "This node has already been added.")
  else serverProtoResponse true (bytes "New node added into database.")

def addNodePort (host : Host) (request : Option Object) : UInt16 :=
  host.toUshort (objectDotgetNumber request [bytes "data", bytes "node_gateway_port"])

def handleAddNode (host : Host) (io : DbIo) (clientAddr : Bytes) (request : Option Object)
    (db : Db.Database) : Outcome :=
  if !io.opened then .done 0 (serverProtoResponse false (bytes "Failed fetching nodes from database")) db
  else if !io.connected then .exit
  else if !io.configured then .fault
  else
    let (insertNode, db) :=
      Db.insertNewNode host.sqlite io.calls db clientAddr (addNodePort host request)
    .done 0 (addNodeResponse insertNode) db

/-- The handler on the text in the connection's buffer. -/
def nodeServerCallback (host : Host) (io : DbIo) (clientAddr buffer : Bytes) (db : Db.Database) :
    Outcome :=
  if buffer = [] then .done (-1) (serverProtoResponse false (bytes "GEONSP: Empty protocol message.")) db
  else
    let request := valueGetObject (jsonParseString buffer)
    if objectHasValue request (bytes "method") then
      match objectGetString request (bytes "method") with
      | none => .fault
      | some method =>
        if startsWith method geonspMsgGetVersion then
          .done 0 (serverProtoResponse true host.version) db
        else if startsWith method geonspMsgGetNodes then handleGetNodes host io db
        else if startsWith method geonspMsgAddNode then handleAddNode host io clientAddr request db
        else .done (-1) (serverProtoResponse false (bytes "GEONSP: Invalid protocol method.")) db
    else .done (-1) (serverProtoResponse false (bytes "GEONSP: Invalid protocol message.")) db

theorem handleGetNodes_db (h : handleGetNodes host io db = .done result response db') : db' = db := by
  unfold handleGetNodes at h
  split at h
  · cases h
    rfl
  split at h
  · contradiction
  split at h
  · contradiction
  split at h <;> cases h <;> rfl

theorem handleAddNode_db (h : handleAddNode host io clientAddr request db = .done result response db') :
    db' = db ∨ ∃ port, db' = (Db.insertNewNode host.sqlite io.calls db clientAddr port).2 := by
  unfold handleAddNode at h
  split at h
  · cases h
    exact .inl rfl
  split at h
  · contradiction
  split at h
  · contradiction
  · cases h
    exact .inr ⟨_, rfl⟩

theorem nodeServerCallback_db
    (h : nodeServerCallback host io clientAddr buffer db = .done result response db') :
    db' = db ∨ ∃ port, db' = (Db.insertNewNode host.sqlite io.calls db clientAddr port).2 := by
  unfold nodeServerCallback at h
  split at h
  · cases h
    exact .inl rfl
  dsimp only at h
  split at h
  case isFalse =>
    cases h
    exact .inl rfl
  split at h
  · contradiction
  split at h
  · cases h
    exact .inl rfl
  split at h
  · exact .inl (handleGetNodes_db h)
  split at h
  · exact handleAddNode_db h
  · cases h
    exact .inl rfl

-- ---------------------------------------------------------------------------
-- The calling node
-- ---------------------------------------------------------------------------

def allInterfaces : Bytes := bytes "0.0.0.0"

/-- `own` are the IPv4 addresses of the machine's interfaces. -/
def isMyIp (own : List Ipv4) (ip : Bytes) : Bool :=
  ip == allInterfaces || own.any fun a => ip == inetNtoa a

def pingText (serverAddr : Bytes) : Bytes :=
  bytes "ping -c 1 " ++ (serverAddr ++ bytes " > /dev/null 2>&1")

def pingCommand (serverAddr : Bytes) : Bytes := snprintf 100 (pingText serverAddr)

/-- What `isGeonsHostAvailable` makes of the reply to its hello: `none` is a
fault. -/
def helloAccepted (reply : Bytes) : Option Bool :=
  let response := valueGetObject (jsonParseString reply)
  if objectHasValue response (bytes "status") && objectHasValue response (bytes "message") then
    (objectGetString response (bytes "status")).map (startsWith · (bytes "success"))
  else some false

abbrev InsertIo := Nat → Db.Calls

/-- One element of the reply's list: `none` is a fault. -/
def registerNode (host : Host) (own : List Ipv4) (calls : Db.Calls) (node : Option Object)
    (db : Db.Database) : Option Db.Database :=
  (objectGetString node (bytes "server")).map fun serverAddr =>
    if isMyIp own serverAddr then db
    else
      (Db.insertNewNode host.sqlite calls db serverAddr
        (host.toUshort (objectGetNumber node (bytes "node")))).2

def registerNodes (host : Host) (own : List Ipv4) (io : InsertIo) (nodes : Option (List Value)) :
    (i : Nat) → (left : Nat) → Db.Database → Option Db.Database
  | _, 0, db => some db
  | i, left + 1, db =>
    (registerNode host own (io i) (arrayGetObject nodes i) db).bind
      (registerNodes host own io nodes (i + 1) left)

/-- The loop of `handleNodeInfoExchange` over a `GET_NODES` reply; its count
is an `unsigned char`. -/
def registerReply (host : Host) (own : List Ipv4) (io : InsertIo) (reply : Bytes)
    (db : Db.Database) : Option Db.Database :=
  let nodes := objectGetArray (valueGetObject (jsonParseString reply)) (bytes "data")
  registerNodes host own io nodes 0 (arrayGetCount nodes % 256) db

/-- What the other side and the network do in one exchange: whether the ping
and the connection succeed, and the texts received after the hello and after
`GET_NODES`. The reply to `ADD_NODE` is not looked at. -/
structure Peer where
  ping : Bool
  connect : Bool
  hello : Bytes
  nodes : Bytes

/-- How an exchange ends: the addresses put into a `ping` command, the result
(`none` is a fault) and the database. -/
structure Exchanged where
  pinged : List Bytes
  result : Option UInt8
  db : Db.Database

/-- `none` is a fault. -/
def isGeonsHostAvailable (peer : Peer) : Option Bool :=
  if peer.ping && peer.connect then helloAccepted peer.hello else some false

def handleNodeInfoExchange (host : Host) (own : List Ipv4) (io : InsertIo) (removeIo : Db.Calls)
    (peer : Peer) (db : Db.Database) (destination : Node) (removeInactiveNodes : Bool) :
    Exchanged :=
  if isMyIp own destination.serverAddr then ⟨[], some 2, db⟩
  else
    match isGeonsHostAvailable peer with
    | none => ⟨[destination.serverAddr], none, db⟩
    | some true =>
      match registerReply host own io peer.nodes db with
      | none => ⟨[destination.serverAddr], none, db⟩
      | some db => ⟨[destination.serverAddr], some 1, db⟩
    | some false =>
      if removeInactiveNodes then
        ⟨[destination.serverAddr], some 0,
          (Db.removeNode host.sqlite removeIo db destination.serverAddr destination.nodeGateway).2⟩
      else ⟨[destination.serverAddr], some 0, db⟩

end GeoNS.Geonsp
