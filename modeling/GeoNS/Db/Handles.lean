import GeoNS.Db.Schema

/-!
# Database handles

`db_open`, `db_connect` and `db_disconnect` are separate steps, and four
functions take them, with early exits between. What happens to each `Database`
is logged here, for any outcomes of the calls they make.
-/

namespace GeoNS.Db.Handles

-- ---------------------------------------------------------------------------
-- Databases
-- ---------------------------------------------------------------------------

/-- What `sqlite_db` holds. `db_open` leaves it indeterminate, and `set` tells
that it happens not to be NULL. -/
inductive Handle
  | indeterminate (set : Bool)
  | null
  | opened
  deriving DecidableEq, Repr

def Handle.isSet : Handle → Bool
  | .indeterminate set => set
  | .null => false
  | .opened => true

structure Database where
  isLedger : Bool
  handle : Handle
  freed : Bool
  deriving DecidableEq, Repr

inductive Event
  | opened (d : Nat)
  | disconnected (d : Nat)
  | closed (d : Nat) (handle : Handle)
  deriving DecidableEq, Repr

structure World where
  dbs : List Database
  log : List Event
  deriving DecidableEq, Repr

inductive Stop
  | exit
  | fault
  deriving DecidableEq, Repr

abbrev M := EStateM Stop World

def emit (e : Event) : M Unit := modify fun w => { w with log := w.log ++ [e] }

def read (d : Nat) : M Database := do
  let w ← get
  match w.dbs[d]? with
  | some db => if db.freed then throw .fault else pure db
  | none => throw .fault

def write (d : Nat) (db : Database) : M Unit := modify fun w => { w with dbs := w.dbs.set d db }

/-- `set` is what happens to be on the stack; without it there is no memory. -/
def dbOpen (set : Option Bool) (isLedger : Bool) : M (Option Nat) := do
  match set with
  | none => return none
  | some set =>
    let d := (← get).dbs.length
    modify fun w => { w with dbs := w.dbs ++ [⟨isLedger, .indeterminate set, false⟩] }
    emit (.opened d)
    return some d

def dbDisconnect : Option Nat → M Unit
  | none => pure ()
  | some d => do
    emit (.disconnected d)
    let db ← read d
    if db.handle.isSet then emit (.closed d db.handle)
    write d { db with freed := true }

def query (d : Nat) : M Unit := do
  let db ← read d
  if db.handle ≠ .opened then throw .fault

def queries (d : Nat) : Nat → M Unit
  | 0 => pure ()
  | n + 1 => do
    query d
    queries d n

-- ---------------------------------------------------------------------------
-- Connecting
-- ---------------------------------------------------------------------------

/-- The outcome of a `SELECT` for the configuration's status: an error, or no
row, or a row and whether its value reads as "true". -/
inductive Reply
  | error
  | row (value : Bool)
  | noRow
  deriving DecidableEq, Repr

inductive Opening
  | ok
  | error
  | noMemory
  deriving DecidableEq, Repr

structure Connect where
  opening : Opening
  check : Reply
  status : Reply
  deriving DecidableEq, Repr

/-- A statement that does not compile is stepped nevertheless, and has no row. -/
def isGeonsConfigured (reply : Reply) (d : Nat) : M Bool := do
  let db ← read d
  if db.isLedger then return true
  query d
  match reply with
  | .error =>
    dbDisconnect (some d)
    return false
  | .row value => return value
  | .noRow => return false

def setGeonsSettingsConfigStatus (reply : Reply) (d : Nat) : M Unit := do
  let db ← read d
  if db.isLedger then return
  query d
  let isConfigured ←
    match reply with
    | .error => do
      dbDisconnect (some d)
      pure false
    | .row value => pure value
    | .noRow => pure false
  if !isConfigured then query d

def insertDefaultValues (reply : Reply) (d : Nat) : M Unit := do
  let db ← read d
  if db.isLedger then queries d geonsDefaultServices.length
  let db ← read d
  if !db.isLedger then setGeonsSettingsConfigStatus reply d

def createDefaultTables (calls : Connect) (d : Nat) : M Unit := do
  let db ← read d
  queries d (defaultTables db.isLedger).length
  if !(← isGeonsConfigured calls.check d) then insertDefaultValues calls.status d

def dbInit (calls : Connect) (d : Nat) : M Unit := createDefaultTables calls d

def dbConnect (calls : Connect) (d : Nat) : M Unit := do
  let db ← read d
  write d { db with handle := if calls.opening = .noMemory then .null else .opened }
  if calls.opening ≠ .ok then
    dbDisconnect (some d)
    throw .exit
  dbInit calls d

-- ---------------------------------------------------------------------------
-- Owners
-- ---------------------------------------------------------------------------

/-- The result of `get_all_active_nodes` is -1 for `none`. Of a node there is the
number of queries that the exchange with it makes. -/
structure LocaldbCalls where
  db : Option Bool
  connect : Connect
  nodes : Option (List Nat)

def exchanges (d : Nat) : List Nat → M Unit
  | [] => pure ()
  | n :: ns => do
    queries d n
    exchanges d ns

def connectLocaldbNodeServers (calls : LocaldbCalls) : M Bool := do
  match ← dbOpen calls.db false with
  | none => return false
  | some d =>
    dbConnect calls.connect d
    query d
    match calls.nodes with
    | none =>
      dbDisconnect (some d)
      return false
    | some nodes =>
      exchanges d nodes
      dbDisconnect (some d)
      return true

structure InitCalls where
  db : Option Bool
  connect : Connect
  nodes : List Nat
  localdb : LocaldbCalls

def connectInitNodeServers (calls : InitCalls) : M Bool := do
  match ← dbOpen calls.db false with
  | none => return false
  | some d =>
    dbConnect calls.connect d
    exchanges d calls.nodes
    dbDisconnect (some d)
    connectLocaldbNodeServers calls.localdb

/-- The two requests that open the database, with the outcome of their own
queries. -/
inductive Request
  | getNodes (nodes : Option Nat)
  | addNode (queries : Nat)
  | other

structure CallbackCalls where
  db : Option Bool
  connect : Connect

def nodeServerCallback (calls : CallbackCalls) : Request → M Unit
  | .getNodes nodes => do
    match ← dbOpen calls.db false with
    | none => return
    | some d =>
      dbConnect calls.connect d
      query d
      match nodes with
      | none => return
      | some _ => dbDisconnect (some d)
  | .addNode n => do
    match ← dbOpen calls.db false with
    | none => return
    | some d =>
      dbConnect calls.connect d
      queries d n
      dbDisconnect (some d)
  | .other => return

structure GeoNSServer where
  ledgerDb : Option Nat
  localDb : Option Nat

/-- `gateway` and `http` are the sockets, and whether their threads start. -/
structure ServerCalls where
  memalloc : Bool
  init : InitCalls
  ledger : Option Bool
  localDb : Option Bool
  gateway : Option Bool
  http : Option Bool
  connectLedger : Connect
  connectLocal : Connect

def killGeonsServer (server : GeoNSServer) : M Unit := do
  dbDisconnect server.ledgerDb
  dbDisconnect server.localDb

def startThread (ok : Bool) : M Unit := if ok then pure () else throw .exit

def createGeonsServer (calls : ServerCalls) : M (Option GeoNSServer) := do
  if !calls.memalloc then return none
  if !(← connectInitNodeServers calls.init) then
    killGeonsServer ⟨none, none⟩
    return none
  match ← dbOpen calls.ledger true with
  | none =>
    killGeonsServer ⟨none, none⟩
    return none
  | some ledger =>
    match ← dbOpen calls.localDb false with
    | none =>
      killGeonsServer ⟨some ledger, none⟩
      return none
    | some localDb =>
      let server : GeoNSServer := ⟨some ledger, some localDb⟩
      match calls.gateway with
      | none =>
        killGeonsServer server
        return none
      | some started =>
        startThread started
        match calls.http with
        | none => pure ()
        | some started => startThread started
        dbConnect calls.connectLedger ledger
        dbConnect calls.connectLocal localDb
        return some server

def geonsServer (calls : ServerCalls) : M Unit := do
  match ← createGeonsServer calls with
  | none => return
  | some server => killGeonsServer server

inductive Owner
  | server (calls : ServerCalls)
  | callback (calls : CallbackCalls) (request : Request)
  | localdb (calls : LocaldbCalls)
  | init (calls : InitCalls)

-- ---------------------------------------------------------------------------
-- The contract
-- ---------------------------------------------------------------------------

def Event.Own : Event → Prop
  | .closed _ handle => handle = .opened
  | _ => True

/-- Each database is passed to `db_disconnect` once before the owner returns,
and `sqlite3_close` is applied only to handles that a `db_connect` opened. In a
process that exits, no owner returns. -/
def Settled : EStateM.Result Stop World α → Prop
  | .ok _ w =>
    (∀ d, .opened d ∈ w.log → w.log.count (.disconnected d) = 1) ∧ ∀ e ∈ w.log, e.Own
  | .error .exit w =>
    (∀ d, .opened d ∈ w.log → w.log.count (.disconnected d) ≤ 1) ∧ ∀ e ∈ w.log, e.Own
  | .error .fault _ => False

def Owner.Settles : Owner → Prop
  | .server calls => Settled ((geonsServer calls).run ⟨[], []⟩)
  | .callback calls request => Settled ((nodeServerCallback calls request).run ⟨[], []⟩)
  | .localdb calls => Settled ((connectLocaldbNodeServers calls).run ⟨[], []⟩)
  | .init calls => Settled ((connectInitNodeServers calls).run ⟨[], []⟩)

end GeoNS.Db.Handles
