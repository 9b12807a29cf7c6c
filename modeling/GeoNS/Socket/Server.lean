import GeoNS.SlotTable
import GeoNS.Http.Server

/-!
# The threads of a server socket

The accept thread and a thread for each client, one library call a step. They
share the process's descriptor table and the list of connections, which no
lock guards. A node that was freed is not used again for another connection;
a thread that reaches it, or a walk that does not end, is a fault.
-/

namespace GeoNS.Socket

open CString SlotTable

inductive FdCall
  | recv
  | send
  | close
  deriving DecidableEq, Repr

/-- The socket accepted for a connection, or any other descriptor. -/
inductive Desc
  | socket (connection : Nat)
  | other
  deriving DecidableEq, Repr

structure Use where
  connection : Nat
  call : FdCall
  found : Option Desc
  deriving DecidableEq, Repr

/-- The steps of `remove_connection`; `prev` is what its walk found. -/
inductive Stage
  | find
  | close (prev : Option Nat)
  | freeBuffer (prev : Option Nat)
  | unlink (prev : Option Nat)
  | tail (prev : Option Nat)
  deriving DecidableEq, Repr

inductive Acceptor
  | idle
  | accepting (c : Nat)
  | clientData (c : Nat)
  | create (c : Nat)
  | removing (c : Nat) (stage : Stage)
  | killing (current : Option Nat)
  | killRemoving (c : Nat) (stage : Stage) (current : Option Nat)
  | ended
  deriving DecidableEq, Repr

/-- Where `handle_client` is. In its callback, the calls that are left. -/
inductive Thread
  | notStarted
  | buffer
  | peek
  | callback
  | calling (calls : List FdCall) (result : Http.Result)
  | removing (stage : Stage)
  | ended
  deriving DecidableEq, Repr

/-- A `SocketConnection` with its thread, less its next pointer. -/
structure Connection where
  fd : Option Nat
  established : Bool
  hasBuffer : Bool
  freed : Bool
  thread : Thread
  deriving DecidableEq, Repr

def Connection.fresh : Connection := ⟨none, false, false, false, .notStarted⟩

/-- `lost` are the connections `remove_connection` did not find. -/
structure State where
  table : Table Desc
  serverFd : Nat
  head : Option Nat
  next : Nat → Option Nat
  connections : Nat → Connection
  count : Nat
  acceptor : Acceptor
  uses : List Use
  lost : List Nat
  crashed : Bool

def State.modify (s : State) (c : Nat) (f : Connection → Connection) : State :=
  { s with connections := Function.update s.connections c (f (s.connections c)) }

def State.setThread (s : State) (c : Nat) (thread : Thread) : State :=
  s.modify c fun connection => { connection with thread }

def State.freeNode (s : State) (c : Nat) : State :=
  s.modify c fun connection => { connection with freed := true }

def State.crash (s : State) : State := { s with crashed := true }

def State.reading (s : State) (c : Nat) (t : State) : State :=
  if (s.connections c).freed then s.crash else t

def State.found (s : State) (c : Nat) : Option Desc := (s.connections c).fd.bind (slot s.table)

def State.useFd (s : State) (c : Nat) (call : FdCall) : State :=
  { s with
    uses := s.uses ++ [⟨c, call, s.found c⟩]
    table :=
      match call, (s.connections c).fd with
      | .close, some n => free s.table n
      | _, _ => s.table }

-- ---------------------------------------------------------------------------
-- The list of connections
-- ---------------------------------------------------------------------------

def State.lastNode (s : State) : (fuel : Nat) → (a : Nat) → Option Nat
  | 0, _ => none
  | fuel + 1, a =>
    if (s.connections a).freed then none
    else
      match s.next a with
      | none => some a
      | some b => s.lastNode fuel b

/-- `add_connection`; `none` is a fault. -/
def State.addConnection (s : State) (c : Nat) : Option State :=
  let s := { s with next := Function.update s.next c none }
  match s.head with
  | none => some { s with head := some c }
  | some a =>
    (s.lastNode (s.count + 1) a).map fun z => { s with next := Function.update s.next z (some c) }

inductive Search
  | found (prev : Option Nat)
  | missing
  | fault
  deriving DecidableEq, Repr

def State.search (s : State) (c : Nat) :
    (fuel : Nat) → (prev : Option Nat) → (current : Option Nat) → Search
  | _, _, none => .missing
  | 0, _, some _ => .fault
  | fuel + 1, prev, some a =>
    if a = c then .found prev
    else if (s.connections a).freed then .fault
    else s.search c fuel (some a) (s.next a)

/-- One step of `remove_connection`, and the next one unless it returns; `none`
is a fault. -/
def State.removeStep (s : State) (c : Nat) : Stage → Option (State × Option Stage)
  | .find =>
    match s.search c (s.count + 1) none s.head with
    | .found prev =>
      some (s, some (if (s.connections c).established then .close prev else .freeBuffer prev))
    | .missing => some ({ s with lost := s.lost ++ [c] }, none)
    | .fault => none
  | .close prev =>
    if (s.connections c).freed then none else some (s.useFd c .close, some (.freeBuffer prev))
  | .freeBuffer prev =>
    if (s.connections c).freed then none
    else
      some (s.modify c fun connection => { connection with hasBuffer := false },
        some (.unlink prev))
  | .unlink prev =>
    if (s.connections c).freed then none
    else
      match s.next c, prev with
      | some q, none => some ({ s with head := some q }.freeNode c, none)
      | some q, some p =>
        if (s.connections p).freed then none
        else some ({ s with next := Function.update s.next p (some q) }.freeNode c, none)
      | none, none =>
        -- the node that is freed is the one the list's head points to
        match s.head with
        | none => some (s, some (.tail none))
        | some a => if (s.connections a).freed then none else some (s.freeNode a, some (.tail none))
      | none, some p => some (s.freeNode c, some (.tail (some p)))
  | .tail none => some ({ s with head := none }, none)
  | .tail (some p) =>
    if (s.connections p).freed then none
    else some ({ s with next := Function.update s.next p none }, none)

-- ---------------------------------------------------------------------------
-- Steps
-- ---------------------------------------------------------------------------

/-- `ok` and `got` are the outcomes of the calls; `remove none` is a step of the
accept thread. Other code of the process opens and closes descriptors of its
own. -/
inductive Label
  | memalloc (ok : Bool)
  | accept (ok : Bool)
  | clientData (ok : Bool)
  | create (ok : Bool)
  | kill
  | buffer (c : Nat) (ok : Bool)
  | peek (c : Nat) (got : Bool)
  | callback (c : Nat) (env : Http.Env) (text : Bytes) (bufferSize : Int)
  | call (c : Nat)
  | consume (c : Nat)
  | remove (c : Option Nat)
  | openOther
  | closeOther (n : Nat)

def fdCallOf : Http.Call → Option FdCall
  | .recv _ => some .recv
  | .send _ => some .send
  | .close => some .close
  | _ => none

def stepMemalloc (s : State) (ok : Bool) : Option State :=
  match s.acceptor with
  | .idle =>
    if ok then
      let c := s.count
      let t := { s with
        count := c + 1
        connections := Function.update s.connections c .fresh
        acceptor := .accepting c }
      some ((t.addConnection c).getD s.crash)
    else some { s with acceptor := .killing s.head }
  | _ => none

def stepAccept (s : State) (ok : Bool) : Option State :=
  match s.acceptor with
  | .accepting c =>
    if ok then
      let n := lowestFree s.table
      some { s.modify c fun connection => { connection with fd := some n, established := true } with
        table := insert s.table (.socket c)
        acceptor := .clientData c }
    else some { s with acceptor := .removing c .find }
  | _ => none

def stepClientData (s : State) (ok : Bool) : Option State :=
  match s.acceptor with
  | .clientData c => some { s with acceptor := if ok then .create c else .removing c .find }
  | _ => none

def stepCreate (s : State) (ok : Bool) : Option State :=
  match s.acceptor with
  | .create c =>
    if ok then some ({ s with acceptor := .idle }.setThread c .buffer)
    else some { s with acceptor := .removing c .find }
  | _ => none

/-- `kill_socket_server`, up to its `remove_connection`. -/
def stepKill (s : State) : Option State :=
  match s.acceptor with
  | .killing none => some { s with table := free s.table s.serverFd, acceptor := .ended }
  | .killing (some a) => some (s.reading a { s with acceptor := .killRemoving a .find (s.next a) })
  | _ => none

def stepBuffer (s : State) (c : Nat) (ok : Bool) : Option State :=
  match (s.connections c).thread with
  | .buffer =>
    some (s.reading c (s.modify c fun connection =>
      { connection with hasBuffer := ok, thread := if ok then .peek else .removing .find }))
  | _ => none

/-- Bytes come only from a socket. -/
def stepPeek (s : State) (c : Nat) (got : Bool) : Option State :=
  match (s.connections c).thread with
  | .peek =>
    if got ∧ (s.found c = none ∨ s.found c = some .other) then none
    else
      some (s.reading c ((s.useFd c .recv).setThread c (if got then .callback else .removing .find)))
  | _ => none

def stepCallback (server : Http.HttpServer) (s : State) (c : Nat) (env : Http.Env) (text : Bytes)
    (bufferSize : Int) : Option State :=
  match (s.connections c).thread with
  | .callback =>
    let run := Http.httpServerCallback env server text bufferSize
    some (s.reading c (s.setThread c (.calling (run.calls.filterMap fdCallOf) run.result)))
  | _ => none

/-- The next call of the callback: `send` and `close` take the number from the
request, `recv` takes it from the connection. -/
def stepCall (s : State) (c : Nat) : Option State :=
  match (s.connections c).thread with
  | .calling (call :: calls) result =>
    let t := (s.useFd c call).setThread c (.calling calls result)
    some (if call = .recv then s.reading c t else t)
  | _ => none

def stepConsume (s : State) (c : Nat) : Option State :=
  match (s.connections c).thread with
  | .calling [] (.ret value) =>
    if value = -1 then some (s.reading c ((s.useFd c .recv).setThread c (.removing .find)))
    else if value = 0 then some (s.reading c ((s.useFd c .recv).setThread c .peek))
    else some (s.setThread c .peek)
  | .calling [] .fault => some s.crash
  | _ => none

def stepRemove (s : State) : Option Nat → Option State
  | none =>
    match s.acceptor with
    | .removing c stage =>
      match s.removeStep c stage with
      | none => some s.crash
      | some (s, some stage) => some { s with acceptor := .removing c stage }
      | some (s, none) => some { s with acceptor := .idle }
    | .killRemoving c stage current =>
      match s.removeStep c stage with
      | none => some s.crash
      | some (s, some stage) => some { s with acceptor := .killRemoving c stage current }
      | some (s, none) => some { s with acceptor := .killing current }
    | _ => none
  | some c =>
    match (s.connections c).thread with
    | .removing stage =>
      match s.removeStep c stage with
      | none => some s.crash
      | some (s, some stage) => some (s.setThread c (.removing stage))
      | some (s, none) => some (s.setThread c .ended)
    | _ => none

def step (server : Http.HttpServer) (s : State) (l : Label) : Option State :=
  if s.crashed then none
  else
    match l with
    | .memalloc ok => stepMemalloc s ok
    | .accept ok => stepAccept s ok
    | .clientData ok => stepClientData s ok
    | .create ok => stepCreate s ok
    | .kill => stepKill s
    | .buffer c ok => stepBuffer s c ok
    | .peek c got => stepPeek s c got
    | .callback c env text bufferSize => stepCallback server s c env text bufferSize
    | .call c => stepCall s c
    | .consume c => stepConsume s c
    | .remove c => stepRemove s c
    | .openOther => some { s with table := insert s.table .other }
    | .closeOther n =>
      if slot s.table n = some .other ∧ (n = s.serverFd → s.acceptor = .ended) then
        some { s with table := free s.table n }
      else none

/-- The server listens; `others` are the numbers below it that are in use. -/
def initial (others : List Bool) : State where
  table := others.map (fun used => if used then some .other else none) ++ [some .other]
  serverFd := others.length
  head := none
  next := fun _ => none
  connections := fun _ => .fresh
  count := 0
  acceptor := .idle
  uses := []
  lost := []
  crashed := false

end GeoNS.Socket
