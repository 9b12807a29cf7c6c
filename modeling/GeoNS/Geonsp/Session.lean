import GeoNS.Geonsp.Dispatch

/-!
# A session over a byte stream

A client sends `CLIENT_HELLO`, `ADD_NODE` and `GET_NODES` in lock step, and
the gateway answers them. Each side has the bytes that were sent to it and not
yet received, and every `recv` returns some of them. Both sides take what one
`recv` returns for a message, so the session is the one of whole messages only
while the stream does not cut them.
-/

namespace GeoNS.Geonsp.Session

open CString Parson Inet Runs
open Dispatch (Performs performs_of_prefix)

/-- The two sides of a session. `io` are the outcomes of the database calls of
the gateway's answers. -/
structure Setting where
  host : Host
  beyond : Bytes
  clientAddr : Bytes
  serverDb : Db.Database
  io : Nat → DbIo
  port : UInt16
  own : List Ipv4
  clientDb : Db.Database
  inserts : InsertIo

/-- What the client waits for, or how it ended: with the text it took for the
reply to `GET_NODES` and its database, `none` after a fault. -/
inductive Client
  | hello
  | add
  | nodes
  | finished (reply : Bytes) (db : Option Db.Database)
  | closed
  | fault
  deriving DecidableEq

/-- `reset` is a gateway whose process ended with bytes it had not received. -/
structure State where
  c2s : Bytes
  s2c : Bytes
  buffer : Bytes
  serving : Bool
  reset : Bool
  handled : List Outcome
  serverDb : Db.Database
  client : Client

inductive Label
  | serverRecv (n : Nat)
  | clientRecv (n : Nat)
  | clientEof
  | clientReset

variable (ss : Setting)

def State.serve (s : State) (c : Chunk) : State :=
  let outcome := nodeServerCallback ss.host (ss.io s.handled.length) ss.clientAddr
    (requestText ss.beyond s.buffer c) s.serverDb
  let s := { s with handled := s.handled ++ [outcome] }
  match outcome with
  | .done result response db =>
    { s with
      c2s := s.c2s.drop c.1.length
      s2c := s.s2c ++ response
      buffer := recvInto s.buffer c
      serving := result == 0
      serverDb := db }
  | _ => { s with serving := false, reset := true }

def State.receive (s : State) (text : Bytes) : Option State :=
  match s.client with
  | .hello =>
    match helloAccepted text with
    | some true =>
      some { s with c2s := s.c2s ++ payload (constructAddNodeRequest ss.port), client := .add }
    | some false => some { s with client := .closed }
    | none => some { s with client := .fault }
  | .add => some { s with c2s := s.c2s ++ payload constructGetNodesRequest, client := .nodes }
  | .nodes =>
    some { s with client := .finished text (registerReply ss.host ss.own ss.inserts text ss.clientDb) }
  | _ => none

def step (s : State) : Label → Option State
  | .serverRecv n =>
    if h : s.serving ∧ s.c2s.take n ≠ [] ∧ (s.c2s.take n).length ≤ maxGeonspBufferSize then
      some (s.serve ss ⟨s.c2s.take n, h.2⟩)
    else none
  | .clientRecv n =>
    if s.s2c.take n ≠ [] ∧ (s.s2c.take n).length ≤ maxGeonspBufferSize then
      -- the terminator of a full buffer is written behind it
      if (s.s2c.take n).length = maxGeonspBufferSize then some { s with client := .fault }
      else { s with s2c := s.s2c.drop n }.receive ss (cstr (s.s2c.take n))
    else none
  | .clientEof => if !s.serving && !s.reset && s.s2c.isEmpty then s.receive ss [] else none
  -- the terminator is written at the index -1
  | .clientReset => if s.reset then some { s with client := .fault } else none

def begin : State :=
  ⟨payload constructClientHelloRequest, [], freshBuffer, true, false, [], ss.serverDb, .hello⟩

-- ---------------------------------------------------------------------------
-- Whole messages
-- ---------------------------------------------------------------------------

def Setting.answer (i : Nat) (request : Object) (db : Db.Database) : Outcome :=
  nodeServerCallback ss.host (ss.io i) ss.clientAddr (payload request) db

def Setting.first : Outcome := ss.answer 0 constructClientHelloRequest ss.serverDb

def Setting.second : Outcome :=
  ss.answer 1 (constructAddNodeRequest ss.port) (ss.first.after ss.serverDb)

def Setting.third : Outcome :=
  ss.answer 2 constructGetNodesRequest (ss.second.after (ss.first.after ss.serverDb))

def Client.isFinished : Client → Bool
  | .finished .. => true
  | _ => false

/-- The gateway has handled the client's requests in turn and once each, and a
client that has finished has read the answer to its last request: both
databases are those of the session of whole messages. -/
structure WholeMessages (s : State) : Prop where
  handled : s.handled <+: [ss.first, ss.second, ss.third]
  all : s.client.isFinished → s.handled = [ss.first, ss.second, ss.third]
  serverDb : s.client.isFinished →
    s.serverDb = ss.third.after (ss.second.after (ss.first.after ss.serverDb))
  client : s.client.isFinished → s.client = .finished ss.third.response
    (registerReply ss.host ss.own ss.inserts ss.third.response ss.clientDb)

/-- Every `recv` returns all that was sent and not yet received, and a reply
leaves room for its terminator. -/
def Uncut (s : State) : Label → Prop
  | .serverRecv n => n = s.c2s.length
  | .clientRecv n => n = s.s2c.length ∧ n < maxGeonspBufferSize
  | .clientEof | .clientReset => True

-- ---------------------------------------------------------------------------
-- The answers
-- ---------------------------------------------------------------------------

theorem writable_base (hvalid : isValidUtf8 message) :
    Writable 0 (.object (constructBaseGeonspMessage message)) := by
  have heq : constructBaseGeonspMessage message = [(bytes "method", .string message)] := by
    simp [constructBaseGeonspMessage, objectSetString, objectSetValue, valueInitString, hvalid]
  rw [heq]
  refine .object (by decide) (by simp [bytes]) (by simp) fun m hm => ?_
  rw [List.mem_singleton] at hm
  subst hm
  exact .string (by decide) _

theorem constructAddNodeRequest_eq (port : UInt16) :
    constructAddNodeRequest port =
      [(bytes "method", .string (bytes "ADD_NODE")),
        (bytes "data", .object [(bytes "node_gateway_port", .number (.ofNat port.toNat))])] := rfl

theorem writable_addNode (port : UInt16) : Writable 0 (.object (constructAddNodeRequest port)) := by
  have hdata : Writable 1 (.object [(bytes "node_gateway_port", .number (.ofNat port.toNat))]) := by
    refine .object (by decide) (by simp [bytes]) (by simp) fun m hm => ?_
    rw [List.mem_singleton] at hm
    subst hm
    exact .number (by decide) _ (finite_ofNat port.toNat_lt)
  rw [constructAddNodeRequest_eq]
  refine .object (by decide) (by simp [bytes]) (by simp [bytes]) fun m hm => ?_
  simp only [List.mem_cons, List.not_mem_nil, or_false] at hm
  rcases hm with rfl | rfl
  · exact .string (by decide) _
  · exact hdata

/-- The method of a request that was written by the program, whatever follows it in
the buffer. -/
theorem methodOf_payload (h : Writable 0 (.object request))
    (hmethod : objectGetString (some request) (bytes "method") = some method) (t : Bytes) :
    methodOf (payload request ++ t) = some method := by
  rw [methodOf, requestValue, payload, jsonParseString_serialize h t]
  exact hmethod

theorem requestText_payload (beyond buffer : Bytes) (c : Chunk) (hc : c.1 = payload request) :
    ∃ t, requestText beyond buffer c = payload request ++ t := by
  have hzero : (0 : UInt8) ∉ payload request := zero_notMem_serialize _
  refine ⟨cstr (buffer.drop c.1.length ++ beyond), ?_⟩
  rw [requestText, recvInto, hc, List.append_assoc, cstr_append_of_notMem hzero]

theorem handled_hello (io : DbIo) (clientAddr : Bytes) (db : Db.Database) (t : Bytes) :
    nodeServerCallback host io clientAddr (payload constructClientHelloRequest ++ t) db =
      .done 0 (serverProtoResponse true host.version) db := by
  have hmethod : objectGetString (some constructClientHelloRequest) (bytes "method") =
      some geonspMsgGetVersion := by decide
  have hwritable : Writable 0 (.object constructClientHelloRequest) := writable_base (by decide)
  have hperforms : Performs _ .getVersion :=
    performs_of_prefix (methodOf_payload hwritable hmethod t) List.prefix_rfl
  exact hperforms host io clientAddr db

theorem handled_getNodes (io : DbIo) (clientAddr : Bytes) (db : Db.Database) (t : Bytes) :
    nodeServerCallback host io clientAddr (payload constructGetNodesRequest ++ t) db =
      handleGetNodes host io db := by
  have hmethod : objectGetString (some constructGetNodesRequest) (bytes "method") =
      some geonspMsgGetNodes := by decide
  have hwritable : Writable 0 (.object constructGetNodesRequest) := writable_base (by decide)
  have hperforms : Performs _ .getNodes :=
    performs_of_prefix (methodOf_payload hwritable hmethod t) List.prefix_rfl
  exact hperforms host io clientAddr db

theorem handled_addNode (port : UInt16) (io : DbIo) (clientAddr : Bytes) (db : Db.Database)
    (t : Bytes) :
    nodeServerCallback host io clientAddr (payload (constructAddNodeRequest port) ++ t) db =
      handleAddNode host io clientAddr (some (constructAddNodeRequest port)) db := by
  have hmethod : objectGetString (some (constructAddNodeRequest port)) (bytes "method") =
      some geonspMsgAddNode := rfl
  have hperforms : Performs _ .addNode :=
    performs_of_prefix (methodOf_payload (writable_addNode port) hmethod t) List.prefix_rfl
  have hparsed : jsonParseString (payload (constructAddNodeRequest port) ++ t) =
      some (.object (constructAddNodeRequest port)) := jsonParseString_serialize (writable_addNode port) t
  rw [hperforms, Dispatch.Operation.perform, hparsed]
  rfl

inductive Sent : Outcome → Prop
  | done (response : Object) (db : Db.Database) : Sent (.done 0 (payload response) db)
  | exit : Sent .exit
  | fault : Sent .fault

theorem handleGetNodes_sent (host : Host) (io : DbIo) (db : Db.Database) :
    Sent (handleGetNodes host io db) := by
  unfold handleGetNodes
  split
  · exact .done _ db
  split
  · exact .exit
  split
  · exact .fault
  split
  · exact .done _ db
  · exact .done _ db

theorem handleAddNode_sent (host : Host) (io : DbIo) (clientAddr : Bytes)
    (request : Option Object) (db : Db.Database) :
    Sent (handleAddNode host io clientAddr request db) := by
  have hresponse (r : UInt8) : ∃ response, addNodeResponse r = payload response := by
    unfold addNodeResponse
    split
    · exact ⟨_, rfl⟩
    split
    · exact ⟨_, rfl⟩
    · exact ⟨_, rfl⟩
  unfold handleAddNode
  split
  · exact .done _ db
  split
  · exact .exit
  split
  · exact .fault
  dsimp only
  obtain ⟨response, hr⟩ := hresponse
    (Db.insertNewNode host.sqlite io.calls db clientAddr (addNodePort host request)).1
  rw [hr]
  exact .done response _

/-- A message of the session is answered as if it stood alone in the buffer,
and an answer that is sent is an object's text. -/
structure Answered (request : Object) : Prop where
  alone : ∀ i buffer c db, c.1 = payload request →
    nodeServerCallback ss.host (ss.io i) ss.clientAddr (requestText ss.beyond buffer c) db =
      ss.answer i request db
  sent : ∀ i db, Sent (ss.answer i request db)

theorem answered_of_append {f : Nat → Db.Database → Outcome}
    (happend : ∀ i db t, nodeServerCallback ss.host (ss.io i) ss.clientAddr
      (payload request ++ t) db = f i db)
    (hsent : ∀ i db, Sent (f i db)) :
    Answered ss request := by
  have halone (i : Nat) (db : Db.Database) : ss.answer i request db = f i db := by
    have h := happend i db []
    rwa [List.append_nil] at h
  constructor
  · intro i buffer c db hc
    obtain ⟨t, ht⟩ := requestText_payload ss.beyond buffer c hc
    rw [ht, happend, halone]
  · intro i db
    rw [halone]
    exact hsent i db

theorem answered_hello : Answered ss constructClientHelloRequest :=
  answered_of_append ss (fun i db t => handled_hello (ss.io i) ss.clientAddr db t)
    fun _ db => .done _ db

theorem answered_addNode : Answered ss (constructAddNodeRequest ss.port) :=
  answered_of_append ss (fun i db t => handled_addNode ss.port (ss.io i) ss.clientAddr db t)
    fun i db => handleAddNode_sent ss.host (ss.io i) ss.clientAddr _ db

theorem answered_getNodes : Answered ss constructGetNodesRequest :=
  answered_of_append ss (fun i db t => handled_getNodes (ss.io i) ss.clientAddr db t)
    fun i db => handleGetNodes_sent ss.host (ss.io i) db

-- ---------------------------------------------------------------------------
-- Stages of an uncut session
-- ---------------------------------------------------------------------------

inductive Stage : State → Prop
  | hello (buffer : Bytes) :
    Stage ⟨payload constructClientHelloRequest, [], buffer, true, false, [], ss.serverDb, .hello⟩
  | helloReply (buffer : Bytes) :
    Stage ⟨[], ss.first.response, buffer, true, false, [ss.first], ss.first.after ss.serverDb, .hello⟩
  | add (buffer : Bytes) :
    Stage ⟨payload (constructAddNodeRequest ss.port), [], buffer, true, false, [ss.first],
      ss.first.after ss.serverDb, .add⟩
  | addReply (buffer : Bytes) :
    Stage ⟨[], ss.second.response, buffer, true, false, [ss.first, ss.second],
      ss.second.after (ss.first.after ss.serverDb), .add⟩
  | nodes (buffer : Bytes) :
    Stage ⟨payload constructGetNodesRequest, [], buffer, true, false, [ss.first, ss.second],
      ss.second.after (ss.first.after ss.serverDb), .nodes⟩
  | nodesReply (buffer : Bytes) :
    Stage ⟨[], ss.third.response, buffer, true, false, [ss.first, ss.second, ss.third],
      ss.third.after (ss.second.after (ss.first.after ss.serverDb)), .nodes⟩
  | finished (buffer : Bytes) :
    Stage ⟨[], [], buffer, true, false, [ss.first, ss.second, ss.third],
      ss.third.after (ss.second.after (ss.first.after ss.serverDb)),
      .finished ss.third.response
        (registerReply ss.host ss.own ss.inserts ss.third.response ss.clientDb)⟩
  | gone (c2s buffer : Bytes) (handled : List Outcome) (db : Db.Database) (client : Client)
      (h : handled <+: [ss.first, ss.second, ss.third]) (hclient : client.isFinished = false) :
    Stage ⟨c2s, [], buffer, false, true, handled, db, client⟩
  | gaveUp (buffer : Bytes) (client : Client) (h : client = .closed ∨ client = .fault) :
    Stage ⟨[], [], buffer, true, false, [ss.first], ss.first.after ss.serverDb, client⟩

variable {ss : Setting}

theorem cstr_response (h : Answered ss request) (i : Nat) (db : Db.Database) :
    cstr (ss.answer i request db).response = (ss.answer i request db).response := by
  generalize ss.answer i request db = outcome, h.sent i db = hsent
  cases hsent with
  | done response db' => exact cstr_eq_self (zero_notMem_serialize _)
  | exit | fault => rfl

/-- An uncut `recv` of the gateway takes the whole request. -/
theorem step_serverRecv (h : Answered ss request) (hk : handled.length = k)
    (hout : ss.answer k request db = outcome) (hn : n = (payload request).length)
    (hstep : step ss ⟨payload request, [], buffer, true, false, handled, db, client⟩
      (.serverRecv n) = some t) :
    (∃ next, t = ⟨[], outcome.response, next, true, false, handled ++ [outcome],
      outcome.after db, client⟩) ∨
      t = ⟨payload request, [], buffer, false, true, handled ++ [outcome], db, client⟩ := by
  simp only [step] at hstep
  split at hstep
  case isFalse => contradiction
  rename_i hrecv
  have hwhole : (payload request).take n = payload request := by rw [hn, List.take_length]
  obtain ⟨c, hc, ht⟩ : ∃ c : Chunk, c.1 = payload request ∧ State.serve ss
      ⟨payload request, [], buffer, true, false, handled, db, client⟩ c = t :=
    ⟨_, hwhole, Option.some.inj hstep⟩
  have hanswer := h.alone k buffer c db hc
  have hsent := h.sent k db
  rw [hout] at hanswer hsent
  rw [← ht]
  cases hsent with
  | done response db' =>
    refine .inl ⟨recvInto buffer c, ?_⟩
    simp [State.serve, hk, hanswer, hc, Outcome.response, Outcome.after]
  | exit | fault =>
    refine .inr ?_
    simp [State.serve, hk, hanswer]

/-- An uncut `recv` of the client takes the whole response. -/
theorem step_clientRecv (htext : cstr reply = reply) (hn : n = reply.length)
    (hroom : n < maxGeonspBufferSize)
    (hstep : step ss ⟨c2s, reply, buffer, serving, reset, handled, db, client⟩ (.clientRecv n) = some t) :
    State.receive ss ⟨c2s, [], buffer, serving, reset, handled, db, client⟩ reply = some t := by
  simp only [step] at hstep
  split at hstep
  case isFalse => contradiction
  rw [hn] at hroom
  rwa [hn, List.take_length, if_neg hroom.ne, htext, List.drop_length] at hstep

theorem Stage.step_server (hs : Stage ss s) (hn : n = s.c2s.length)
    (h : step ss s (.serverRecv n) = some t) : Stage ss t := by
  cases hs with
  | hello buffer =>
    have hlength : ([] : List Outcome).length = 0 := rfl
    have hout : ss.answer 0 constructClientHelloRequest ss.serverDb = ss.first := by
      rw [Setting.first]
    obtain ⟨buffer, ht⟩ | ht := step_serverRecv (answered_hello ss) hlength hout hn h
    · rw [ht]
      exact .helloReply buffer
    · rw [ht]
      exact .gone _ _ _ _ _ (List.prefix_append [ss.first] [ss.second, ss.third]) rfl
  | add buffer =>
    have hlength : [ss.first].length = 1 := rfl
    have hout : ss.answer 1 (constructAddNodeRequest ss.port) (ss.first.after ss.serverDb) =
        ss.second := by
      rw [Setting.second]
    obtain ⟨buffer, ht⟩ | ht := step_serverRecv (answered_addNode ss) hlength hout hn h
    · rw [ht]
      exact .addReply buffer
    · rw [ht]
      exact .gone _ _ _ _ _ (List.prefix_append [ss.first, ss.second] [ss.third]) rfl
  | nodes buffer =>
    have hlength : [ss.first, ss.second].length = 2 := rfl
    have hout : ss.answer 2 constructGetNodesRequest
        (ss.second.after (ss.first.after ss.serverDb)) = ss.third := by
      rw [Setting.third]
    obtain ⟨buffer, ht⟩ | ht := step_serverRecv (answered_getNodes ss) hlength hout hn h
    · rw [ht]
      exact .nodesReply buffer
    · rw [ht]
      exact .gone _ _ _ _ _ List.prefix_rfl rfl
  | _ => simp [Session.step] at h

theorem Stage.step_client (hs : Stage ss s) (hn : n = s.s2c.length)
    (hroom : n < maxGeonspBufferSize) (h : step ss s (.clientRecv n) = some t) : Stage ss t := by
  cases hs with
  | helloReply buffer =>
    have htext : cstr ss.first.response = ss.first.response := by
      rw [Setting.first, cstr_response (answered_hello ss)]
    dsimp only at hn
    have h := step_clientRecv htext hn hroom h
    simp only [State.receive, List.nil_append] at h
    split at h
    · cases h
      exact .add buffer
    · cases h
      exact .gaveUp buffer .closed (.inl rfl)
    · cases h
      exact .gaveUp buffer .fault (.inr rfl)
  | addReply buffer =>
    have htext : cstr ss.second.response = ss.second.response := by
      rw [Setting.second, cstr_response (answered_addNode ss)]
    dsimp only at hn
    have h := step_clientRecv htext hn hroom h
    simp only [State.receive, List.nil_append, Option.some.injEq] at h
    rw [← h]
    exact .nodes buffer
  | nodesReply buffer =>
    have htext : cstr ss.third.response = ss.third.response := by
      rw [Setting.third, cstr_response (answered_getNodes ss)]
    dsimp only at hn
    have h := step_clientRecv htext hn hroom h
    simp only [State.receive, Option.some.injEq] at h
    rw [← h]
    exact .finished buffer
  | _ => simp [Session.step] at h

theorem Stage.step_reset (hs : Stage ss s) (h : step ss s .clientReset = some t) :
    Stage ss t := by
  cases hs with
  | gone c2s buffer handled db client hprefix hclient =>
    simp only [Session.step, if_true, Option.some.injEq] at h
    rw [← h]
    exact .gone c2s buffer handled db .fault hprefix rfl
  | _ => simp [Session.step] at h

theorem Stage.step (hs : Stage ss s) (hc : Uncut s l) (h : step ss s l = some t) : Stage ss t := by
  cases l with
  | clientEof => cases hs <;> simp [Session.step] at h
  | clientReset => exact hs.step_reset h
  | serverRecv n => exact hs.step_server hc h
  | clientRecv n => exact hs.step_client hc.1 hc.2 h

theorem wholeMessages_of_prefix (h : s.handled <+: [ss.first, ss.second, ss.third])
    (hclient : s.client.isFinished = false) : WholeMessages ss s :=
  ⟨h, by simp [hclient], by simp [hclient], by simp [hclient]⟩

theorem Stage.wholeMessages (hs : Stage ss s) : WholeMessages ss s := by
  cases hs with
  | finished buffer =>
    refine ⟨?_, fun _ => ?_, fun _ => ?_, fun _ => ?_⟩ <;> dsimp only
    exact List.prefix_rfl
  | gone c2s buffer handled db client h hclient => exact wholeMessages_of_prefix h hclient
  | gaveUp buffer client h =>
    refine wholeMessages_of_prefix (List.prefix_append [ss.first] [ss.second, ss.third]) ?_
    rcases h with rfl | rfl <;> rfl
  | hello => exact wholeMessages_of_prefix List.nil_prefix rfl
  | helloReply | add =>
    exact wholeMessages_of_prefix (List.prefix_append [ss.first] [ss.second, ss.third]) rfl
  | addReply | nodes =>
    exact wholeMessages_of_prefix (List.prefix_append [ss.first, ss.second] [ss.third]) rfl
  | nodesReply => exact wholeMessages_of_prefix List.prefix_rfl rfl

theorem wholeMessages_of_uncut (hrun : run (Session.step ss) (begin ss) ls = some t)
    (hc : Each (Session.step ss) Uncut (begin ss) ls) : WholeMessages ss t := by
  have hstage : Stage ss t :=
    invariant_each (fun _ _ _ hc hi hs => hi.step hc hs) hrun hc (.hello freshBuffer)
  exact hstage.wholeMessages

-- ---------------------------------------------------------------------------
-- A reply in two pieces
-- ---------------------------------------------------------------------------

def sampleSetting : Setting where
  host := sampleHost
  beyond := []
  clientAddr := bytes "10.0.0.5"
  serverDb := ⟨false, []⟩
  io := fun _ => .ok
  port := 9060
  own := []
  clientDb := ⟨false, []⟩
  inserts := fun _ => .ok

def wholeRun : List Label :=
  [.serverRecv 24, .clientRecv 67, .serverRecv 55, .clientRecv 62, .serverRecv 22, .clientRecv 129]

/-- The reply to `ADD_NODE` arrives in two pieces; the second one reaches the
client with the reply to `GET_NODES`. -/
def splitRun : List Label :=
  [.serverRecv 24, .clientRecv 67, .serverRecv 55, .clientRecv 30, .serverRecv 22, .clientRecv 161]

instance : (s : State) → (l : Label) → Decidable (Uncut s l)
  | s, .serverRecv n => inferInstanceAs (Decidable (n = s.c2s.length))
  | s, .clientRecv n =>
    inferInstanceAs (Decidable (n = s.s2c.length ∧ n < maxGeonspBufferSize))
  | _, .clientEof => isTrue trivial
  | _, .clientReset => isTrue trivial

theorem wholeMessages_wholeRun :
    ∃ t, run (Session.step sampleSetting) (begin sampleSetting) wholeRun = some t ∧
      t.client.isFinished ∧ WholeMessages sampleSetting t := by
  have hclient : ((run (Session.step sampleSetting) (begin sampleSetting) wholeRun).map
      (·.client.isFinished)) = some true := by decide +kernel
  obtain ⟨t, hrun, hfinished⟩ := Option.map_eq_some_iff.mp hclient
  exact ⟨t, hrun, hfinished, wholeMessages_of_uncut hrun (by decide +kernel)⟩

theorem not_wholeMessages_splitRun :
    registerReply sampleHost [] sampleSetting.inserts sampleSetting.third.response ⟨false, []⟩ =
        some ⟨false, [⟨bytes "10.0.0.5", 9060, bytes "active"⟩]⟩ ∧
      ∃ t, run (Session.step sampleSetting) (begin sampleSetting) splitRun = some t ∧
        t.client = .finished (sampleSetting.second.response.drop 30 ++ sampleSetting.third.response)
          (some ⟨false, []⟩) ∧
        ¬ WholeMessages sampleSetting t := by
  have hclient : ((run (Session.step sampleSetting) (begin sampleSetting) splitRun).map
      (·.client)) = some (.finished
        (sampleSetting.second.response.drop 30 ++ sampleSetting.third.response)
        (some ⟨false, []⟩)) := by decide +kernel
  obtain ⟨t, hrun, hfinished⟩ := Option.map_eq_some_iff.mp hclient
  refine ⟨by decide +kernel, t, hrun, hfinished, fun h => ?_⟩
  have hsame := h.client (by rw [hfinished]; rfl)
  rw [hfinished] at hsame
  revert hsame
  decide +kernel

end GeoNS.Geonsp.Session
