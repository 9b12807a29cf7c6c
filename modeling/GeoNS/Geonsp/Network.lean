import GeoNS.Runs
import GeoNS.Gossip
import GeoNS.Geonsp.Pruning

/-!
# A network of nodes

Any number of nodes start and end in any order. While a node starts, it visits the
initial nodes and then those of its table, one after the other; only then is its
gateway open. The exchanges of different nodes interleave message by message, and
each call of a database function is one step.
-/

namespace GeoNS.Geonsp.Network

open CString Parson Inet Runs
open Ping (initNodes listedNodes plain_of_dottedQuad toNode_serverAddr dottedQuad_initNodes)

/-- `seen i b` is the address that `b` accepts the connections of `i` from, and
`site` the node that listens at an address. -/
structure Setting (ι : Type) where
  host : ι → Host
  own : ι → List Ipv4
  port : ι → UInt16
  seen : ι → ι → Ipv4
  site : Bytes → UInt16 → Option ι

/-- The last message of an exchange, or what is left to do for it. -/
inductive Wire
  | hello
  | helloReply (reply : Bytes)
  | add
  | addReply
  | list
  | listReply (reply : Bytes)
  | learning (nodes : Option (List Value)) (i left : Nat)

structure Visit (ι : Type) where
  node : Node
  peer : ι
  connected : Bool
  wire : Wire

/-- The visits of `connectInitNodeServers` are `initial`. -/
inductive Phase (ι : Type)
  | down
  | starting (initial : Bool) (visit : Option (Visit ι)) (rest : List Node)
  | up

/-- `cell` is the buffer of `inet_ntoa` in the thread that accepts. -/
structure State (ι : Type) where
  nodes : ι → List Db.Row
  cell : ι → Bytes
  phase : ι → Phase ι

/-- The first node is the one that acts; `serve` is the answer to its request. -/
inductive Label (ι : Type)
  | boot (i : ι)
  | skip (i : ι)
  | miss (i : ι) (io : Db.Calls)
  | call (i b : ι)
  | serve (i : ι) (behind : Bytes) (io : DbIo)
  | lose (i : ι) (fault : Bool)
  | receive (i : ι) (io : Db.Calls)
  | learn (i : ι) (io : Db.Calls)
  | load (i : ι) (io : Db.NodeCalls)
  | finish (i : ι)
  | stop (i : ι)

def Wire.request (port : UInt16) : Wire → Option Object
  | .hello => some constructClientHelloRequest
  | .add => some (constructAddNodeRequest port)
  | .list => some constructGetNodesRequest
  | _ => none

def Wire.answered (reply : Bytes) : Wire → Wire
  | .hello => .helloReply reply
  | .add => .addReply
  | .list => .listReply reply
  | wire => wire

/-- `recv` returns 0, which leaves an empty text. -/
def Wire.lost : Wire → Option Wire
  | .hello | .helloReply _ => some (.helloReply [])
  | .add | .addReply => some .addReply
  | .list | .listReply _ => some (.listReply [])
  | .learning .. => none

def Phase.isUp : Phase ι → Bool
  | .up => true
  | _ => false

variable {ι : Type} [DecidableEq ι]

def Phase.cut (b : ι) : Phase ι → Phase ι
  | .starting initial (some v) rest =>
    .starting initial (some { v with connected := v.connected && v.peer != b }) rest
  | phase => phase

namespace State

variable (s : State ι)

def setNodes (i : ι) (nodes : List Db.Row) : State ι :=
  { s with nodes := Function.update s.nodes i nodes }

def setPhase (i : ι) (phase : Phase ι) : State ι :=
  { s with phase := Function.update s.phase i phase }

def halt (i : ι) : State ι := { s with phase := fun j => if j = i then .down else (s.phase j).cut i }

end State

section
variable (net : Setting ι)

def State.drop (s : State ι) (i : ι) (initial : Bool) (node : Node) (rest : List Node) (io : Db.Calls) :
    State ι :=
  let s := s.setPhase i (.starting initial none rest)
  if initial then s
  else
    s.setNodes i (Db.removeNode (net.host i).sqlite io ⟨false, s.nodes i⟩ node.serverAddr
      node.nodeGateway).2.nodes

def step (s : State ι) : Label ι → Option (State ι)
  | .boot i =>
    match s.phase i with
    | .down => some (s.setPhase i (.starting true none initNodes))
    | _ => none
  | .skip i =>
    match s.phase i with
    | .starting initial none (node :: rest) =>
      if isMyIp (net.own i) node.serverAddr then some (s.setPhase i (.starting initial none rest))
      else none
    | _ => none
  | .miss i io =>
    match s.phase i with
    | .starting initial none (node :: rest) =>
      if isMyIp (net.own i) node.serverAddr then none else some (s.drop net i initial node rest io)
    | _ => none
  | .call i b =>
    match s.phase i with
    | .starting initial none (node :: rest) =>
      if isMyIp (net.own i) node.serverAddr = false ∧
          net.site node.serverAddr node.nodeGateway = some b ∧ (s.phase b).isUp then
        let s := s.setPhase i (.starting initial (some ⟨node, b, true, .hello⟩) rest)
        some { s with cell := Function.update s.cell b (inetNtoa (net.seen i b)) }
      else none
    | _ => none
  | .serve i behind io =>
    match s.phase i with
    | .starting initial (some v) rest =>
      if v.connected && (s.phase v.peer).isUp then
        (v.wire.request (net.port i)).map fun request =>
          match nodeServerCallback (net.host v.peer) io (s.cell v.peer) (payload request ++ behind)
            ⟨false, s.nodes v.peer⟩ with
          | .done _ response db =>
            (s.setNodes v.peer db.nodes).setPhase i
              (.starting initial (some { v with wire := v.wire.answered response }) rest)
          | _ => s.halt v.peer
      else none
    | _ => none
  | .lose i fault =>
    match s.phase i with
    | .starting initial (some v) rest =>
      v.wire.lost.map fun wire =>
        if fault then s.halt i
        else s.setPhase i (.starting initial (some { v with connected := false, wire }) rest)
    | _ => none
  | .receive i io =>
    match s.phase i with
    | .starting initial (some v) rest =>
      match v.wire with
      | .helloReply reply =>
        match helloAccepted reply with
        | none => some (s.halt i)
        | some true => some (s.setPhase i (.starting initial (some { v with wire := .add }) rest))
        | some false => some (s.drop net i initial v.node rest io)
      | .addReply => some (s.setPhase i (.starting initial (some { v with wire := .list }) rest))
      | .listReply reply =>
        let nodes := listedNodes reply
        let wire := .learning nodes 0 (arrayGetCount nodes % 256)
        some (s.setPhase i (.starting initial (some { v with wire }) rest))
      | _ => none
    | _ => none
  | .learn i io =>
    match s.phase i with
    | .starting initial (some v) rest =>
      match v.wire with
      | .learning _ _ 0 => some (s.setPhase i (.starting initial none rest))
      | .learning nodes j (left + 1) =>
        match registerNode (net.host i) (net.own i) io (arrayGetObject nodes j) ⟨false, s.nodes i⟩ with
        | none => some (s.halt i)
        | some db =>
          some ((s.setNodes i db.nodes).setPhase i
            (.starting initial (some { v with wire := .learning nodes (j + 1) left }) rest))
      | _ => none
    | _ => none
  | .load i io =>
    match s.phase i with
    | .starting true none [] =>
      match Db.getAllActiveNodes (net.host i).sqlite io ⟨false, s.nodes i⟩ (UInt8.ofNat maxActiveNodes) with
      | none => some (s.halt i)
      | some nodes => some (s.setPhase i (.starting false none nodes))
    | _ => none
  | .finish i =>
    match s.phase i with
    | .starting false none [] => some (s.setPhase i .up)
    | _ => none
  | .stop i =>
    match s.phase i with
    | .down => none
    | _ => some (s.halt i)

/-- A label by which the process of a node ends. -/
inductive Halts (s : State ι) : Label ι → ι → Prop
  | stop (i : ι) : Halts s (.stop i) i
  | lost (h : s.phase i = .starting initial (some v) rest) : Halts s (.lose i true) i
  | served (h : s.phase i = .starting initial (some v) rest) (hup : (s.phase v.peer).isUp)
    (hrequest : v.wire.request (net.port i) = some request)
    (hends : ∀ result response db, nodeServerCallback (net.host v.peer) io (s.cell v.peer)
      (payload request ++ behind) ⟨false, s.nodes v.peer⟩ ≠ .done result response db) :
    Halts s (.serve i behind io) v.peer
  | greeted (h : s.phase i = .starting initial (some v) rest) (hwire : v.wire = .helloReply reply)
    (hfault : helloAccepted reply = none) : Halts s (.receive i io) i
  | learned (h : s.phase i = .starting initial (some v) rest)
    (hwire : v.wire = .learning nodes j (left + 1))
    (hfault : registerNode (net.host i) (net.own i) io (arrayGetObject nodes j) ⟨false, s.nodes i⟩ =
      none) : Halts s (.learn i io) i
  | loaded (h : s.phase i = .starting true none [])
    (hnodes : Db.getAllActiveNodes (net.host i).sqlite io ⟨false, s.nodes i⟩
      (UInt8.ofNat maxActiveNodes) = none) : Halts s (.load i io) i

/-- What a step does. -/
inductive Does (s : State ι) : Label ι → State ι → Prop
  | boot (h : s.phase i = .down) : Does s (.boot i) (s.setPhase i (.starting true none initNodes))
  | skip (h : s.phase i = .starting initial none (node :: rest))
    (hown : isMyIp (net.own i) node.serverAddr) :
    Does s (.skip i) (s.setPhase i (.starting initial none rest))
  | miss (h : s.phase i = .starting initial none (node :: rest))
    (hown : isMyIp (net.own i) node.serverAddr = false) :
    Does s (.miss i io) (s.drop net i initial node rest io)
  | call (h : s.phase i = .starting initial none (node :: rest))
    (hown : isMyIp (net.own i) node.serverAddr = false)
    (hsite : net.site node.serverAddr node.nodeGateway = some b) (hup : (s.phase b).isUp) :
    Does s (.call i b)
      { s.setPhase i (.starting initial (some ⟨node, b, true, .hello⟩) rest) with
        cell := Function.update s.cell b (inetNtoa (net.seen i b)) }
  | served (h : s.phase i = .starting initial (some v) rest) (hconnected : v.connected)
    (hup : (s.phase v.peer).isUp) (hrequest : v.wire.request (net.port i) = some request)
    (hdone : nodeServerCallback (net.host v.peer) io (s.cell v.peer) (payload request ++ behind)
      ⟨false, s.nodes v.peer⟩ = .done result response db) :
    Does s (.serve i behind io) ((s.setNodes v.peer db.nodes).setPhase i
      (.starting initial (some { v with wire := v.wire.answered response }) rest))
  | lost (h : s.phase i = .starting initial (some v) rest) (hwire : v.wire.lost = some wire) :
    Does s (.lose i false)
      (s.setPhase i (.starting initial (some { v with connected := false, wire }) rest))
  | accepted (h : s.phase i = .starting initial (some v) rest) (hwire : v.wire = .helloReply reply)
    (haccepted : helloAccepted reply = some true) :
    Does s (.receive i io) (s.setPhase i (.starting initial (some { v with wire := .add }) rest))
  | refused (h : s.phase i = .starting initial (some v) rest) (hwire : v.wire = .helloReply reply)
    (hrefused : helloAccepted reply = some false) :
    Does s (.receive i io) (s.drop net i initial v.node rest io)
  | added (h : s.phase i = .starting initial (some v) rest) (hwire : v.wire = .addReply) :
    Does s (.receive i io) (s.setPhase i (.starting initial (some { v with wire := .list }) rest))
  | listed (h : s.phase i = .starting initial (some v) rest) (hwire : v.wire = .listReply reply) :
    Does s (.receive i io) (s.setPhase i (.starting initial
      (some { v with wire := .learning (listedNodes reply) 0 (arrayGetCount (listedNodes reply) % 256) })
      rest))
  | learned (h : s.phase i = .starting initial (some v) rest)
    (hwire : v.wire = .learning nodes j (left + 1))
    (hdb : registerNode (net.host i) (net.own i) io (arrayGetObject nodes j) ⟨false, s.nodes i⟩ =
      some db) :
    Does s (.learn i io) ((s.setNodes i db.nodes).setPhase i
      (.starting initial (some { v with wire := .learning nodes (j + 1) left }) rest))
  | left (h : s.phase i = .starting initial (some v) rest) (hwire : v.wire = .learning nodes j 0) :
    Does s (.learn i io) (s.setPhase i (.starting initial none rest))
  | loaded (h : s.phase i = .starting true none [])
    (hnodes : Db.getAllActiveNodes (net.host i).sqlite io ⟨false, s.nodes i⟩
      (UInt8.ofNat maxActiveNodes) = some nodes) :
    Does s (.load i io) (s.setPhase i (.starting false none nodes))
  | finish (h : s.phase i = .starting false none []) : Does s (.finish i) (s.setPhase i .up)
  | halt (h : Halts net s l i) : Does s l (s.halt i)

end

theorem step_does {net : Setting ι} (h : step net s l = some t) : Does net s l t := by
  cases l with
  | boot i =>
    simp only [step] at h
    split at h <;> cases h
    exact .boot ‹_›
  | skip i =>
    simp only [step] at h
    split at h
    · split at h <;> cases h
      exact .skip ‹_› ‹_›
    · contradiction
  | miss i io =>
    simp only [step] at h
    split at h
    · split at h <;> cases h
      exact .miss ‹_› (Bool.eq_false_iff.mpr ‹_›)
    · contradiction
  | call i b =>
    simp only [step] at h
    split at h
    · split at h
      · rename_i hcall
        cases h
        exact .call ‹_› hcall.1 hcall.2.1 hcall.2.2
      · contradiction
    · contradiction
  | serve i behind io =>
    simp only [step] at h
    split at h
    · split at h
      · rename_i hopen
        obtain ⟨request, hrequest, rfl⟩ := Option.map_eq_some_iff.mp h
        obtain ⟨hconnected, hup⟩ := Bool.and_eq_true_iff.mp hopen
        split
        · exact .served ‹_› hconnected hup hrequest ‹_›
        · refine .halt (.served ‹_› hup hrequest fun result response db hdone => ?_)
          simp_all
      · contradiction
    · contradiction
  | lose i fault =>
    simp only [step] at h
    split at h
    · obtain ⟨wire, hwire, rfl⟩ := Option.map_eq_some_iff.mp h
      cases fault with
      | true => exact .halt (.lost ‹_›)
      | false => exact .lost ‹_› hwire
    · contradiction
  | receive i io =>
    simp only [step] at h
    split at h
    · split at h
      · split at h <;> cases h
        · exact .halt (.greeted ‹_› ‹_› ‹_›)
        · exact .accepted ‹_› ‹_› ‹_›
        · exact .refused ‹_› ‹_› ‹_›
      · cases h
        exact .added ‹_› ‹_›
      · cases h
        exact .listed ‹_› ‹_›
      · contradiction
    · contradiction
  | learn i io =>
    simp only [step] at h
    split at h
    · split at h
      · cases h
        exact .left ‹_› ‹_›
      · split at h <;> cases h
        · exact .halt (.learned ‹_› ‹_› ‹_›)
        · exact .learned ‹_› ‹_› ‹_›
      · contradiction
    · contradiction
  | load i io =>
    simp only [step] at h
    split at h
    · split at h <;> cases h
      · exact .halt (.loaded ‹_› ‹_›)
      · exact .loaded ‹_› ‹_›
    · contradiction
  | finish i =>
    simp only [step] at h
    split at h <;> cases h
    exact .finish ‹_›
  | stop i =>
    simp only [step] at h
    split at h <;> cases h
    exact .halt (.stop _)

-- ---------------------------------------------------------------------------
-- An exchange on its own
-- ---------------------------------------------------------------------------

@[simp] theorem nodes_setNodes_self (s : State ι) (i : ι) (nodes : List Db.Row) :
    (s.setNodes i nodes).nodes i = nodes := by simp [State.setNodes]

@[simp] theorem phase_setPhase_self (s : State ι) (i : ι) (phase : Phase ι) :
    (s.setPhase i phase).phase i = phase := by simp [State.setPhase]

@[simp] theorem setPhase_setPhase (s : State ι) (i : ι) (phase phase' : Phase ι) :
    (s.setPhase i phase).setPhase i phase' = s.setPhase i phase' := by simp [State.setPhase]

@[simp] theorem setNodes_setNodes (s : State ι) (i : ι) (nodes nodes' : List Db.Row) :
    (s.setNodes i nodes).setNodes i nodes' = s.setNodes i nodes' := by simp [State.setNodes]

@[simp] theorem setNodes_setPhase (s : State ι) (i j : ι) (phase : Phase ι) (nodes : List Db.Row) :
    (s.setPhase i phase).setNodes j nodes = (s.setNodes j nodes).setPhase i phase := rfl

@[simp] theorem setNodes_self (s : State ι) (i : ι) : s.setNodes i (s.nodes i) = s := by
  simp [State.setNodes]

@[simp] theorem phase_setNodes (s : State ι) (i : ι) (nodes : List Db.Row) :
    (s.setNodes i nodes).phase = s.phase := rfl

@[simp] theorem nodes_setPhase (s : State ι) (i : ι) (phase : Phase ι) :
    (s.setPhase i phase).nodes = s.nodes := rfl

theorem registerNode_isLedger (h : registerNode host own io node db = some db') :
    db'.isLedger = db.isLedger := by
  obtain ⟨server, -, rfl⟩ := Option.map_eq_some_iff.mp h
  split
  · rfl
  · unfold Db.insertNewNode Db.insertRow Db.dbExec
    repeat' split
    all_goals rfl

theorem run_halted (net : Setting ι) (s : State ι) (i : ι) (ios : List Db.Calls) (last : Db.Calls) :
    run (step net) (s.halt i) (ios.map (.learn i) ++ [.learn i last]) = none := by
  cases ios <;> simp [run, step, State.halt]

theorem run_learn (net : Setting ι) (io : InsertIo) (last : Db.Calls) (v : Visit ι) (left j : Nat) (s : State ι)
    (h : s.phase i = .starting initial (some { v with wire := .learning nodes j left }) rest) :
    run (step net) s (((List.range' j left).map io).map (.learn i) ++ [.learn i last]) =
      (registerNodes (net.host i) (net.own i) io nodes j left ⟨false, s.nodes i⟩).map fun db =>
        (s.setNodes i db.nodes).setPhase i (.starting initial none rest) := by
  induction left generalizing j s with
  | zero => simp [run, step, h, registerNodes]
  | succ left ih =>
    rw [List.range'_succ, List.map_cons, List.map_cons, List.cons_append, run, registerNodes]
    cases hdb : registerNode (net.host i) (net.own i) (io j) (arrayGetObject nodes j)
        ⟨false, s.nodes i⟩ with
    | none =>
      have hhalt : step net s (.learn i (io j)) = some (s.halt i) := by simp [step, h, hdb]
      rw [hhalt, Option.bind_some, Option.bind_none, Option.map_none]
      exact run_halted net s i _ last
    | some db =>
      have hlearn : step net s (.learn i (io j)) = some ((s.setNodes i db.nodes).setPhase i
          (.starting initial (some { v with wire := .learning nodes (j + 1) left }) rest)) := by
        simp [step, h, hdb]
      have hlocal : db = ⟨false, db.nodes⟩ := by
        have hledger := registerNode_isLedger hdb
        cases db
        cases hledger
        rfl
      rw [hlearn, Option.bind_some, ih (j + 1) _ (phase_setPhase_self ..), Option.bind_some, hlocal]
      simp

theorem handleAddNode_works (hopened : io.opened) (hconnected : io.connected)
    (hconfigured : io.configured) (hcalls : io.calls = .ok) (hquad : DottedQuad server)
    (port : UInt16) (host : Host) (nodes : List Db.Row) :
    ∃ response, handleAddNode host io server (some (constructAddNodeRequest port)) ⟨false, nodes⟩ =
      .done 0 response ⟨false, insertPair nodes (server, port)⟩ := by
  have hinsert := insertNewNode_ok (p := (server, port)) (plain_of_dottedQuad hquad port) host.sqlite nodes
  dsimp only at hinsert
  refine ⟨addNodeResponse (Db.insertNewNode host.sqlite .ok ⟨false, nodes⟩ server port).1, ?_⟩
  simp only [handleAddNode, hopened, hconnected, hconfigured, hcalls, Exchange.addNodePort_eq]
  rw [← hinsert]
  rfl

theorem helloAccepted_hello (x : Exchange) (htime : ∀ c ∈ x.b.host.compileTime, c < 128)
    (hping : x.ping) (hconnect : x.connect) :
    helloAccepted (serverProtoResponse true x.b.host.version) = some true := by
  have hhello : x.peer.hello = serverProtoResponse true x.b.host.version := by
    rw [Exchange.peer, Exchange.hello_eq]
    rfl
  have hup : (x.peer.ping && x.peer.connect) = true := by simp [Exchange.peer, hping, hconnect]
  have hcheck : isGeonsHostAvailable x.peer = helloAccepted (serverProtoResponse true x.b.host.version) := by
    rw [isGeonsHostAvailable, hup, if_pos rfl, hhello]
  exact hcheck.symm.trans (x.available_of_connected htime hping hconnect)

theorem helloAccepted_version {host : Host} (htime : ∀ c ∈ host.compileTime, c < 128) :
    helloAccepted (serverProtoResponse true host.version) = some true :=
  helloAccepted_hello ⟨⟨host, [], 0, []⟩, ⟨host, [], 0, []⟩, ⟨0, 0, 0, 0⟩, ⟨[], 0, []⟩, fun _ => [],
    true, true, true⟩ htime rfl rfl

def exchangeLabels (i b : ι) (behind : Nat → Bytes) (n : Nat) : List (Label ι) :=
  [.call i b, .serve i (behind 0) .ok, .receive i .ok, .serve i (behind 1) .ok, .receive i .ok,
    .serve i (behind 2) .ok, .receive i .ok] ++ (List.replicate n .ok).map (.learn i) ++ [.learn i .ok]

/-- What the two nodes are, apart from all others. -/
def Setting.exchange (net : Setting ι) (s : State ι) (i b : ι) (destination : Node) (behind : Nat → Bytes) :
    Exchange where
  a := ⟨net.host i, net.own i, net.port i, s.nodes i⟩
  b := ⟨net.host b, net.own b, net.port b, s.nodes b⟩
  seen := net.seen i b
  destination := destination
  behind := behind
  ping := true
  connect := true
  removeInactiveNodes := true

theorem registerReply_of_caller (x : Exchange) (hb : Tidy x.b.nodes)
    (hown : isMyIp x.a.own x.destination.serverAddr = false)
    (havailable : isGeonsHostAvailable x.peer = some true) :
    registerReply x.a.host x.a.own (fun _ => .ok) x.listed.response ⟨false, x.a.nodes⟩ =
      some x.caller.db := by
  have hcaller := x.caller_eq hb hown havailable
  rw [← x.peer_nodes]
  cases hregister : registerReply x.a.host x.a.own (fun _ => .ok) x.peer.nodes ⟨false, x.a.nodes⟩ with
  | none =>
    have hfault : x.caller.result = none := by
      rw [Exchange.caller, handleNodeInfoExchange, hown, if_neg Bool.false_ne_true, havailable]
      simp only [hregister]
    rw [hcaller] at hfault
    cases hfault
  | some db =>
    have hdone : x.caller = ⟨[x.destination.serverAddr], some 1, db⟩ := by
      rw [Exchange.caller, handleNodeInfoExchange_available hown havailable hregister]
    rw [hdone]

theorem step_served (net : Setting ι) (u : State ι) (behind : Bytes) {v : Visit ι}
    (h : u.phase i = .starting initial (some v) rest) (hconnected : v.connected)
    (hup : (u.phase v.peer).isUp) (hrequest : v.wire.request (net.port i) = some request)
    (hdone : nodeServerCallback (net.host v.peer) io (u.cell v.peer) (payload request ++ behind)
      ⟨false, u.nodes v.peer⟩ = .done result response db) :
    step net u (.serve i behind io) = some ((u.setNodes v.peer db.nodes).setPhase i
      (.starting initial (some { v with wire := v.wire.answered response }) rest)) := by
  simp only [step, h, hconnected, hup, hrequest, hdone, Bool.and_self, if_true, Option.map_some]

theorem listed_done (x : Exchange) :
    handleGetNodes x.b.host .ok ⟨false, insertPair x.b.nodes x.self⟩ =
      .done 0 x.listed.response ⟨false, insertPair x.b.nodes x.self⟩ := by
  have hhello : x.hello.after ⟨false, x.b.nodes⟩ = ⟨false, x.b.nodes⟩ := by
    rw [Exchange.hello_eq]
    rfl
  have hanswer : x.listed = x.answer 2 constructGetNodesRequest ⟨false, insertPair x.b.nodes x.self⟩ := by
    rw [Exchange.listed, hhello, Exchange.added_after]
  rw [← Session.handled_getNodes .ok (inetNtoa x.seen) _ (x.behind 2), ← Exchange.answer, ← hanswer,
    Exchange.listed_eq]
  rfl

section
variable {net : Setting ι} {s : State ι} {i b : ι} {v : Visit ι} {destination : Node}

def Setting.called (net : Setting ι) (s : State ι) (i b : ι) : State ι :=
  { s with cell := Function.update s.cell b (inetNtoa (net.seen i b)) }

theorem nodes_called : (net.called s i b).nodes = s.nodes := rfl

@[simp] theorem phase_called : (net.called s i b).phase = s.phase := rfl

def Setting.added (net : Setting ι) (s : State ι) (i b : ι) : State ι :=
  (net.called s i b).setNodes b (insertPair (s.nodes b) (inetNtoa (net.seen i b), net.port i))

abbrev visiting (initial : Bool) (rest : List Node) (destination : Node) (b : ι) (wire : Wire) : Phase ι :=
  .starting initial (some ⟨destination, b, true, wire⟩) rest

/-- `b` notes where the call comes from, and answers with its version. -/
theorem run_greeted (h : s.phase i = .starting initial none (destination :: rest))
    (hown : isMyIp (net.own i) destination.serverAddr = false)
    (hsite : net.site destination.serverAddr destination.nodeGateway = some b) (hup : (s.phase b).isUp)
    (htime : ∀ c ∈ (net.host b).compileTime, c < 128) (behind : Bytes) :
    run (step net) s [.call i b, .serve i behind .ok, .receive i .ok] =
      some ((net.called s i b).setPhase i (visiting initial rest destination b .add)) := by
  have hne : b ≠ i := by
    rintro rfl
    rw [h] at hup
    contradiction
  have hcall : step net s (.call i b) =
      some ((net.called s i b).setPhase i (visiting initial rest destination b .hello)) := by
    simp only [step, h, hown, hsite, hup, and_self, if_true]
    rfl
  rw [run, hcall, Option.bind_some, run, step_served net _ behind (phase_setPhase_self ..) rfl
    (by simpa [State.setPhase, hne] using hup) rfl (Session.handled_hello ..)]
  simp [run, step, Wire.answered, helloAccepted_version htime]

theorem run_added (h : s.phase i = .starting initial (some v) rest) (hwire : v.wire = .add)
    (hconnected : v.connected) (hup : (s.phase v.peer).isUp)
    (hcell : s.cell v.peer = inetNtoa (net.seen i v.peer)) (behind : Bytes) :
    run (step net) s [.serve i behind .ok, .receive i .ok] =
      some ((s.setNodes v.peer (insertPair (s.nodes v.peer) (inetNtoa (net.seen i v.peer), net.port i))).setPhase
        i (.starting initial (some { v with wire := .list }) rest)) := by
  obtain ⟨response, hresponse⟩ := handleAddNode_works (show DbIo.ok.opened from rfl) rfl rfl rfl ⟨net.seen i v.peer, rfl⟩
    (net.port i) (net.host v.peer) (s.nodes v.peer)
  have hdone := (Session.handled_addNode (net.port i) .ok (s.cell v.peer) ⟨false, s.nodes v.peer⟩ behind).trans
    (hcell ▸ hresponse)
  rw [run, step_served net s behind h hconnected hup (by rw [hwire]; rfl) hdone]
  simp [run, step, Wire.answered, hwire, hcell]

/-- The table of `b` is on its way to the node. -/
theorem run_listed (h : s.phase i = .starting initial (some v) rest) (hwire : v.wire = .list)
    (hconnected : v.connected) (hup : (s.phase v.peer).isUp)
    (hdone : handleGetNodes (net.host v.peer) .ok ⟨false, s.nodes v.peer⟩ =
      .done 0 response ⟨false, s.nodes v.peer⟩) (behind : Bytes) :
    run (step net) s [.serve i behind .ok, .receive i .ok] =
      some (s.setPhase i (.starting initial (some { v with
        wire := .learning (listedNodes response) 0 (arrayGetCount (listedNodes response) % 256) }) rest)) := by
  have hserved := (Session.handled_getNodes .ok (s.cell v.peer) ⟨false, s.nodes v.peer⟩ behind).trans hdone
  rw [run, step_served net s behind h hconnected hup (by rw [hwire]; rfl) hserved]
  simp [run, step, Wire.answered, hwire]

theorem run_requests (h : s.phase i = .starting initial none (destination :: rest))
    (hown : isMyIp (net.own i) destination.serverAddr = false)
    (hsite : net.site destination.serverAddr destination.nodeGateway = some b) (hup : (s.phase b).isUp)
    (htime : ∀ c ∈ (net.host b).compileTime, c < 128) (behind : Nat → Bytes) :
    run (step net) s [.call i b, .serve i (behind 0) .ok, .receive i .ok, .serve i (behind 1) .ok,
        .receive i .ok, .serve i (behind 2) .ok, .receive i .ok] =
      some ((net.added s i b).setPhase i (visiting initial rest destination b (.learning
        (listedNodes (net.exchange s i b destination behind).listed.response) 0
        (arrayGetCount (listedNodes (net.exchange s i b destination behind).listed.response) % 256)))) := by
  have hne : b ≠ i := by
    rintro rfl
    rw [h] at hup
    contradiction
  have hbUp (t : State ι) (phase : Phase ι) (ht : t.phase = s.phase) : ((t.setPhase i phase).phase b).isUp := by
    simpa [State.setPhase, hne, ht] using hup
  have hgreeted := run_greeted h hown hsite hup htime (behind 0)
  have hadded := run_added (phase_setPhase_self (net.called s i b) i (visiting initial rest destination b .add))
    rfl rfl (hbUp _ _ rfl) (Function.update_self ..) (behind 1)
  have htable : (net.added s i b).nodes b = insertPair (s.nodes b) (inetNtoa (net.seen i b), net.port i) :=
    nodes_setNodes_self ..
  have hlisted := run_listed (phase_setPhase_self (net.added s i b) i (visiting initial rest destination b .list))
    rfl rfl (hbUp _ _ rfl) (htable ▸ listed_done (net.exchange s i b destination behind)) (behind 2)
  calc _ = (run (step net) s [.call i b, .serve i (behind 0) .ok, .receive i .ok]).bind fun t =>
        (run (step net) t [.serve i (behind 1) .ok, .receive i .ok]).bind fun t =>
          run (step net) t [.serve i (behind 2) .ok, .receive i .ok] := by
        simp only [← run_append, List.cons_append, List.nil_append]
    _ = _ := by
        simpa [hgreeted, hadded, Setting.added, nodes_called] using hlisted

/-- An exchange that nothing interrupts leaves both tables as an exchange of two
parties does, and all others as they were. -/
theorem exchange_alone {net : Setting ι} {s : State ι} {i b : ι} {destination : Node}
    (h : s.phase i = .starting initial none (destination :: rest))
    (hown : isMyIp (net.own i) destination.serverAddr = false)
    (hsite : net.site destination.serverAddr destination.nodeGateway = some b)
    (hup : (s.phase b).isUp) (htime : ∀ c ∈ (net.host b).compileTime, c < 128)
    (htidy : Tidy (s.nodes b)) (behind : Nat → Bytes) :
    ∃ n t, run (step net) s (exchangeLabels i b behind n) = some t ∧
      t.phase i = .starting initial none rest ∧
      t.nodes = Function.update (Function.update s.nodes b (net.exchange s i b destination behind).remote.nodes)
        i (net.exchange s i b destination behind).caller.db.nodes := by
  have hne : b ≠ i := by
    rintro rfl
    rw [h] at hup
    contradiction
  have htable : (net.added s i b).nodes i = s.nodes i := by
    simp [Setting.added, State.setNodes, hne.symm, nodes_called]
  have hrequests := run_requests h hown hsite hup htime behind
  have hregister := registerReply_of_caller (net.exchange s i b destination behind) htidy hown
    ((net.exchange s i b destination behind).available_of_connected htime rfl rfl)
  have hlearn := run_learn net (fun _ => .ok) .ok ⟨destination, b, true, .list⟩
    (arrayGetCount (listedNodes (net.exchange s i b destination behind).listed.response) % 256) 0 _
    (phase_setPhase_self (net.added s i b) i (visiting initial rest destination b (.learning
      (listedNodes (net.exchange s i b destination behind).listed.response) 0 _)))
  refine ⟨arrayGetCount (listedNodes (net.exchange s i b destination behind).listed.response) % 256,
    ((net.added s i b).setNodes i (net.exchange s i b destination behind).caller.db.nodes).setPhase i
      (.starting initial none rest), ?_, phase_setPhase_self .., ?_⟩
  · rw [nodes_setPhase, htable, List.map_const', List.length_range'] at hlearn
    rw [exchangeLabels, List.append_assoc, run_append, hrequests, Option.bind_some, hlearn]
    exact (congrArg (Option.map _) hregister).trans (by simp)
  · rw [Exchange.remote_eq]
    rfl

end

-- ---------------------------------------------------------------------------
-- Three nodes
-- ---------------------------------------------------------------------------

def sampleAddr (i : Fin 3) : Ipv4 := ⟨172, 17, 0, UInt8.ofNat (i.val + 1)⟩

def sampleNetwork : Setting (Fin 3) where
  host _ := sampleHost
  own i := [sampleAddr i]
  port _ := 9060
  seen i _ := sampleAddr i
  site server port :=
    if port = 9060 then (List.finRange 3).find? fun i => server == inetNtoa (sampleAddr i) else none

def hubNode : Fin 3 := 0

def secondNode : Fin 3 := 1

def thirdNode : Fin 3 := 2

def sampleState : State (Fin 3) :=
  ⟨fun _ => [], fun _ => [], fun i => if i = secondNode then .starting true none initNodes.tail else .up⟩

theorem exchange_alone_sample :
    ∃ n t, run (step sampleNetwork) sampleState (exchangeLabels 1 0 (fun _ => []) n) = some t ∧
      t.phase 1 = .starting true none (initNodes.drop 2) ∧
      t.nodes = Function.update
        (Function.update (fun _ => []) 0
          (sampleNetwork.exchange sampleState 1 0 ⟨bytes "172.17.0.1", 9060, Db.active⟩
            fun _ => []).remote.nodes)
        1 (sampleNetwork.exchange sampleState 1 0 ⟨bytes "172.17.0.1", 9060, Db.active⟩
          fun _ => []).caller.db.nodes :=
  exchange_alone rfl (by decide +kernel) (by decide +kernel) rfl (by decide +kernel)
    (fun _ hr => absurd hr List.not_mem_nil) _

end GeoNS.Geonsp.Network
