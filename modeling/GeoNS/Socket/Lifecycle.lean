import GeoNS.Runs
import GeoNS.Socket.Roster

/-!
# The lifecycle of servers and connections

`kill_geons_server` kills both socket servers in the main thread, and an accept
thread kills its own one when it gives up. Both free the connections and then
the server, whatever the accept thread and the clients' threads still do.
-/

namespace GeoNS.Socket.Lifecycle

open LinkedList Runs

inductive Which
  | gateway
  | http
  deriving DecidableEq, Repr

/-- A step of one of the server's threads. In a callback, `reads` tells that the
call takes its arguments from the connection. -/
inductive Label
  | memalloc (ok : Bool)
  | accept (ok : Bool)
  | clientData (ok : Bool)
  | create (ok : Bool)
  | kill
  | buffer (c : Nat) (ok : Bool)
  | peek (c : Nat) (got : Bool)
  | callback (c : Nat) (calls : List FdCall) (result : Int)
  | call (c : Nat) (reads : Bool)
  | consume (c : Nat)
  | remove (a : Option Nat)

/-- Any callback: the calls it makes and its result are free. -/
def stepCallback (s : Socket.State) (c : Nat) (calls : List FdCall) (result : Int) :
    Option Socket.State :=
  match (s.connections c).thread with
  | .callback => some (s.reading c (s.setThread c (.calling calls (.ret result))))
  | _ => none

def stepCall (s : Socket.State) (c : Nat) (reads : Bool) : Option Socket.State :=
  match (s.connections c).thread with
  | .calling (_ :: calls) result =>
    let t := s.setThread c (.calling calls result)
    some (if reads then s.reading c t else t)
  | _ => none

def threadStep (s : Socket.State) : Label → Option Socket.State
  | .memalloc ok => stepMemalloc s ok
  | .accept ok => stepAccept s ok
  | .clientData ok => stepClientData s ok
  | .create ok => stepCreate s ok
  | .kill => stepKill s
  | .buffer c ok => stepBuffer s c ok
  | .peek c got => Roster.stepPeek s c got
  | .callback c calls result => stepCallback s c calls result
  | .call c reads => stepCall s c reads
  | .consume c => stepConsume s c
  | .remove a => stepRemove s a

-- ---------------------------------------------------------------------------
-- Tokens
-- ---------------------------------------------------------------------------

def usesHead : Stage → Bool
  | .find | .unlink none | .tail none => true
  | _ => false

def usesServer (s : Socket.State) : Label → Bool
  | .memalloc _ | .accept _ | .clientData _ | .kill => true
  | .create ok => !ok
  | .remove a => (s.removal a).any fun r => usesHead r.2
  | _ => false

def writes (s : Socket.State) : Label → Option Nat
  | .accept _ | .clientData true => s.acceptor.current
  | _ => none

def freedNode (s : Socket.State) (c : Nat) : Stage → List Nat
  | .unlink none => if s.next c = none then s.head.toList else [c]
  | .unlink (some _) => [c]
  | _ => []

def freedBy (s : Socket.State) : Label → List Nat
  | .remove a =>
    match s.removal a with
    | some (c, stage) => freedNode s c stage
    | none => []
  | _ => []

def releasedBy (s : Socket.State) : Label → Nat
  | .kill => if s.acceptor = .killing none then 1 else 0
  | _ => 0

/-- `releases` counts the times the server was given to `free`, and `freed` logs
the connections that were. `late` tells that a step used the server, or wrote to
a connection, that was released. -/
structure Server where
  sys : Socket.State
  releases : Nat
  freed : List Nat
  late : Bool

def Server.use (v : Server) : Server := { v with late := v.late || v.releases != 0 }

def Server.release (v : Server) : Server := { v.use with releases := v.releases + 1 }

def Server.thread (v : Server) (l : Label) : Option Server :=
  if v.sys.crashed then none
  else
    (threadStep v.sys l).map fun sys =>
      let u := if usesServer v.sys l then v.use else v
      { sys
        releases := v.releases + releasedBy v.sys l
        freed := v.freed ++ freedBy v.sys l
        late := u.late || (writes v.sys l).any fun c => (v.sys.connections c).freed }

-- ---------------------------------------------------------------------------
-- The main thread
-- ---------------------------------------------------------------------------

inductive Main
  | running
  | killing (w : Which) (current : Option Nat)
  | removing (w : Which) (c : Nat) (stage : Stage) (current : Option Nat)
  | between
  | ended
  deriving DecidableEq

structure State where
  server : Which → Server
  withHttp : Bool
  main : Main

def State.set (s : State) (w : Which) (v : Server) (main : Main) : State :=
  { s with server := Function.update s.server w v, main }

def State.enter (s : State) (w : Which) : State :=
  s.set w (s.server w).use (.killing w (s.server w).sys.head)

def Server.crash (v : Server) : Server := { v with sys := v.sys.crash }

/-- A stage of a removal in `kill_socket_server`, with where it goes on. -/
def Server.removeStep (v : Server) (c : Nat) (stage : Stage) : Server × Option Stage :=
  let u := if usesHead stage then v.use else v
  match v.sys.removeStep c stage with
  | none => (u.crash, none)
  | some (sys, after) => ({ u with sys, freed := v.freed ++ freedNode v.sys c stage }, after)

def stepMain (s : State) : Option State :=
  match s.main with
  | .running => some (s.enter .gateway)
  | .killing w none =>
    some (s.set w (s.server w).release (if w = .gateway then .between else .ended))
  | .killing w (some c) =>
    let v := s.server w
    if (v.sys.connections c).freed then some (s.set w v.crash .ended)
    else some (s.set w v (.removing w c .find (v.sys.next c)))
  | .removing w c stage current =>
    match (s.server w).removeStep c stage with
    | (v, some stage) => some (s.set w v (.removing w c stage current))
    | (v, none) => some (s.set w v (.killing w current))
  | .between => some (if s.withHttp then s.enter .http else { s with main := .ended })
  | .ended => none

inductive Move
  | thread (w : Which) (l : Label)
  | main

/-- `create_http_server` may have failed. -/
def State.has (s : State) (w : Which) : Bool := w = .gateway || s.withHttp

def step (s : State) : Move → Option State
  | .thread w l =>
    if s.has w then ((s.server w).thread l).map fun v => s.set w v s.main else none
  | .main => if (s.server .gateway).sys.crashed || (s.server .http).sys.crashed then none else stepMain s

def begin (withHttp : Bool) : State where
  server _ := ⟨initial [], 0, [], false⟩
  withHttp := withHttp
  main := .running

/-- The server and each of its connections are released at most once, and
nothing uses one of them afterwards. -/
structure Proper (v : Server) : Prop where
  server : v.releases ≤ 1
  connections : v.freed.Nodup
  unused : v.late = false
  safe : v.sys.crashed = false

-- ---------------------------------------------------------------------------
-- Calm runs
-- ---------------------------------------------------------------------------

def Main.reached : Main → Which → Bool
  | .running, _ => false
  | .killing .gateway _, w | .removing .gateway .., w => w = .gateway
  | .between, w => w = .gateway
  | .killing .http _, _ | .removing .http .., _ | .ended, _ => true

def State.enters (s : State) : Option Which :=
  match s.main with
  | .running => some .gateway
  | .between => if s.withHttp then some .http else none
  | _ => none

def closing : Acceptor → Bool
  | .killing _ | .killRemoving .. | .ended => true
  | _ => false

/-- No client's thread goes on after the accept thread has begun to kill the
server, and a thread comes to the list only when no other is inside a removal. -/
def CalmThread (s : Socket.State) : Label → Prop
  | .memalloc _ => s.NoRemoval
  | .remove a => (s.Outside a → s.NoRemoval) ∧ (a ≠ none → closing s.acceptor = false)
  | .buffer .. | .peek .. | .callback .. | .call .. | .consume _ => closing s.acceptor = false
  | .accept _ | .clientData _ | .create _ | .kill => True

instance (s : Socket.State) : (l : Label) → Decidable (CalmThread s l)
  | .memalloc _ => inferInstanceAs (Decidable s.NoRemoval)
  | .remove a =>
    inferInstanceAs (Decidable ((s.Outside a → s.NoRemoval) ∧ (a ≠ none → closing s.acceptor = false)))
  | .buffer .. | .peek .. | .callback .. | .call .. | .consume _ =>
    inferInstanceAs (Decidable (closing s.acceptor = false))
  | .accept _ | .clientData _ | .create _ | .kill => isTrue trivial

/-- No thread of a server goes on after `kill_geons_server` has come to it, which
comes only to a server that is still there, with no thread inside a removal. -/
def Calm (s : State) : Move → Prop
  | .thread w l => s.main.reached w = false ∧ CalmThread (s.server w).sys l
  | .main => ∀ w ∈ s.enters, (s.server w).sys.acceptor ≠ .ended ∧ (s.server w).sys.NoRemoval

instance (s : State) : (m : Move) → Decidable (Calm s m)
  | .thread w l => inferInstanceAs (Decidable (s.main.reached w = false ∧ CalmThread (s.server w).sys l))
  | .main =>
    inferInstanceAs (Decidable (∀ w ∈ s.enters,
      (s.server w).sys.acceptor ≠ .ended ∧ (s.server w).sys.NoRemoval))

end GeoNS.Socket.Lifecycle
