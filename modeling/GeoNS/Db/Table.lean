import GeoNS.SqlLexer
import GeoNS.Core

/-!
# The nodes table

The query texts of the nodes table, what SQLite makes of them, and the
functions that hand them over. A text is first lexed: only one that reads as
one of this module's statements has its meaning here, and what SQLite does
with any other text is a parameter.
-/

namespace GeoNS.Db

open CString SqlLexer

/-- A row of `nodes`, less the key that numbers the rows. -/
structure Row where
  server : Bytes
  nodeGateway : Int
  status : Bytes
  deriving DecidableEq, Repr

structure Database where
  isLedger : Bool
  nodes : List Row
  deriving DecidableEq, Repr

-- ---------------------------------------------------------------------------
-- Statements
-- ---------------------------------------------------------------------------

inductive Stmt
  | selectNode (server : Bytes) (port : Nat)
  | selectActive (limit : Nat)
  | insertNode (server : Bytes) (port : Nat)
  | deleteNode (server : Bytes) (port : Nat)
  deriving DecidableEq, Repr

def word (s : String) : Token := .word (bytes s)

def active : Bytes := bytes "active"

def selectFrom : List Token :=
  [word "SELECT", .symbol 42, word "FROM", word "nodes", word "WHERE"]

/-- `server = '…' AND node_gateway = …;` -/
def matchTokens (server : Bytes) (port : Nat) : List Token :=
  [word "server", .symbol 61, .text server, word "AND", word "node_gateway", .symbol 61,
    .number (dec port), .symbol 59]

def Stmt.tokens : Stmt → List Token
  | .selectNode server port => selectFrom ++ matchTokens server port
  | .selectActive limit =>
    selectFrom ++ [word "status", .symbol 61, .text active, word "LIMIT", .number (dec limit),
      .symbol 59]
  | .insertNode server port =>
    [word "INSERT", word "INTO", word "nodes", .symbol 40, word "server", .symbol 44,
      word "node_gateway", .symbol 44, word "status", .symbol 41, word "VALUES", .symbol 40,
      .text server, .symbol 44, .number (dec port), .symbol 44, .text active, .symbol 41]
  | .deleteNode server port =>
    [word "DELETE", word "FROM", word "nodes", word "WHERE"] ++ matchTokens server port

def literals (ts : List Token) : List Bytes :=
  ts.filterMap fun | .text v => some v | _ => none

def numbers (ts : List Token) : List Nat :=
  ts.filterMap fun | .number ds => some (decVal ds) | _ => none

def Stmt.read (ts : List Token) : Option Stmt :=
  match literals ts, numbers ts with
  | server :: _, n :: _ =>
    [.selectNode server n, .selectActive n, .insertNode server n, .deleteNode server n].find?
      (·.tokens = ts)
  | _, _ => none

theorem Stmt.read_tokens (st : Stmt) : Stmt.read st.tokens = some st := by
  have hselect : word "SELECT" ≠ word "INSERT" := by decide
  have hdelete : word "SELECT" ≠ word "DELETE" := by decide
  have hinsert : word "INSERT" ≠ word "DELETE" := by decide
  have hserver : word "server" ≠ word "status" := by decide
  have hliteral (s : String) : (match word s with | .text v => some v | _ => none) = none := rfl
  have hnumber (s : String) :
      (match word s with | .number ds => some (decVal ds) | _ => none) = none := rfl
  cases st <;>
    simp [Stmt.read, Stmt.tokens, literals, numbers, matchTokens, selectFrom, hliteral, hnumber,
      decVal_dec, hselect, hdelete, hinsert, hserver]

-- ---------------------------------------------------------------------------
-- Query texts
-- ---------------------------------------------------------------------------

def selectText (serverAddr : Bytes) (nodeGatewayPort : UInt16) : Bytes :=
  bytes "SELECT * FROM nodes WHERE server = '" ++ (serverAddr ++
    (bytes "' AND node_gateway = " ++ (dec nodeGatewayPort.toNat ++ bytes ";")))

def insertText (serverAddr : Bytes) (nodeGatewayPort : UInt16) : Bytes :=
  bytes "INSERT INTO nodes (server, node_gateway, status) VALUES ('" ++ (serverAddr ++
    (bytes "', " ++ (dec nodeGatewayPort.toNat ++ bytes ", 'active')")))

def removeText (serverAddr : Bytes) (nodeGateway : UInt16) : Bytes :=
  bytes "DELETE FROM nodes WHERE server = '" ++ (serverAddr ++
    (bytes "' AND node_gateway = " ++ (dec nodeGateway.toNat ++ bytes ";")))

def activeText (sizeOfNodes : UInt8) : Bytes :=
  bytes "SELECT * FROM nodes WHERE status = 'active' LIMIT " ++ (dec sizeOfNodes.toNat ++ bytes ";")

def sqlQuery (text : Bytes) : Bytes := snprintf maxSqlQuerySize text

-- ---------------------------------------------------------------------------
-- SQLite
-- ---------------------------------------------------------------------------

/-- `LENGTH` of a text: a byte that continues a UTF-8 character is not
counted. `inside` tells that the last character may go on. -/
def lengthFrom (inside : Bool) : Bytes → Nat
  | [] => 0
  | c :: cs =>
    if inside && 128 ≤ c && c < 192 then lengthFrom true cs else lengthFrom (192 ≤ c) cs + 1

def length (v : Bytes) : Nat := lengthFrom false v

def Row.check (r : Row) : Bool :=
  length r.server ≤ 15 && (r.status == active || r.status == bytes "inactive")

/-- What SQLite does with the texts that are none of this module's
statements: the rows of a query, `none` where it does not compile, and what
becomes of the table, with whether all of the text was executed. -/
structure Sqlite where
  query : Bytes → List Row → Option (List Row)
  exec : Bytes → List Row → Bool × List Row

def Sqlite.strict : Sqlite where
  query _ _ := none
  exec _ nodes := (false, nodes)

def Row.isNode (server : Bytes) (port : Nat) (r : Row) : Bool :=
  r.server == server && r.nodeGateway == (port : Int)

def Sqlite.rows (sq : Sqlite) (text : Bytes) (nodes : List Row) : Option (List Row) :=
  match Stmt.read (lex text) with
  | some (.selectNode server port) => some (nodes.filter (·.isNode server port))
  | some (.selectActive limit) => some ((nodes.filter (·.status == active)).take limit)
  | _ => sq.query text nodes

def Sqlite.run (sq : Sqlite) (text : Bytes) (nodes : List Row) : Bool × List Row :=
  match Stmt.read (lex text) with
  | some (.insertNode server port) =>
    if Row.check ⟨server, port, active⟩ then (true, nodes ++ [⟨server, port, active⟩])
    else (false, nodes)
  | some (.deleteNode server port) => (true, nodes.filter (!·.isNode server port))
  | _ => sq.exec text nodes

/-- Which of the database calls of one function go through. -/
structure Calls where
  prepare : Bool
  step : Bool
  exec : Bool
  deriving DecidableEq, Repr

def Calls.ok : Calls := ⟨true, true, true⟩

-- ---------------------------------------------------------------------------
-- The functions
-- ---------------------------------------------------------------------------

def dbExec (sq : Sqlite) (io : Calls) (db : Database) (text : Bytes) : UInt8 × Database :=
  if io.exec then
    let (ok, nodes) := sq.run text db.nodes
    (if ok then 1 else 0, { db with nodes })
  else (0, db)

def removeNode (sq : Sqlite) (io : Calls) (db : Database) (serverAddr : Bytes)
    (nodeGateway : UInt16) : UInt8 × Database :=
  dbExec sq io db (sqlQuery (removeText serverAddr nodeGateway))

inductive Found
  | error
  | row
  | noRow
  deriving DecidableEq, Repr

/-- The `SELECT` of `insertNewNode`; a step that fails counts as no row. -/
def selectNode (sq : Sqlite) (io : Calls) (db : Database) (serverAddr : Bytes)
    (nodeGatewayPort : UInt16) : Found :=
  if io.prepare then
    match sq.rows (sqlQuery (selectText serverAddr nodeGatewayPort)) db.nodes with
    | none => .error
    | some rows => if io.step && !rows.isEmpty then .row else .noRow
  else .error

def insertRow (sq : Sqlite) (io : Calls) (db : Database) (serverAddr : Bytes)
    (nodeGatewayPort : UInt16) : UInt8 × Database :=
  dbExec sq io db (sqlQuery (insertText serverAddr nodeGatewayPort))

/-- 0 is an error, 1 a node added, 2 a node already there. -/
def insertNewNode (sq : Sqlite) (io : Calls) (db : Database) (serverAddr : Bytes)
    (nodeGatewayPort : UInt16) : UInt8 × Database :=
  if db.isLedger then (0, db)
  else
    match selectNode sq io db serverAddr nodeGatewayPort with
    | .error => (0, db)
    | .row => (2, db)
    | .noRow => insertRow sq io db serverAddr nodeGatewayPort

/-- The calls of `getAllActiveNodes`: the `SELECT` compiles, and which of its
steps and of the allocations go through. -/
structure NodeCalls where
  prepare : Bool
  step : Nat → Bool
  alloc : Nat → Bool

def NodeCalls.ok : NodeCalls := ⟨true, fun _ => true, fun _ => true⟩

def Row.toNode (r : Row) : Node where
  serverAddr := (cstr r.server).take maxIpv6Length
  nodeGateway := UInt16.ofNat (r.nodeGateway % 65536).toNat
  status := (cstr r.status).take 15

/-- The nodes of the rows from step `i` on, `none` where one has no memory. A
step that fails ends the loop as the last row does. -/
def collectNodes (io : NodeCalls) (i : Nat) : List Row → Option (List Node)
  | [] => some []
  | r :: rows =>
    if io.step i then
      if io.alloc i then (collectNodes io (i + 1) rows).map (r.toNode :: ·) else none
    else some []

/-- `none` is the result -1. -/
def getAllActiveNodes (sq : Sqlite) (io : NodeCalls) (db : Database) (sizeOfNodes : UInt8) :
    Option (List Node) :=
  if db.isLedger || !io.prepare then none
  else (sq.rows (sqlQuery (activeText sizeOfNodes)) db.nodes).bind (collectNodes io 0)

end GeoNS.Db
