import GeoNS.Geonsp.Network

/-!
# Where the pairs of a network come from

The tables of a network spread knowledge: what a gateway lists is told, and what the
exchange inserts is learned. Nodes start and end in any order, calls of the database
fail at will, and connections break; no table ever has a pair that was not there and
is not that of a node that called another.
-/

namespace GeoNS.Geonsp.Network

open CString Parson Inet Runs
open Ping (initNodes listedNodes plain_of_dottedQuad toNode_serverAddr dottedQuad_initNodes)

-- ---------------------------------------------------------------------------
-- One call of the database
-- ---------------------------------------------------------------------------

theorem insertNewNode_cases (hquad : DottedQuad p.1) (sqlite : Db.Sqlite) (io : Db.Calls)
    (nodes : List Db.Row) :
    (Db.insertNewNode sqlite io ⟨false, nodes⟩ p.1 p.2).2 = ⟨false, nodes⟩ ∨
      (Db.insertNewNode sqlite io ⟨false, nodes⟩ p.1 p.2).2 = ⟨false, nodes ++ [Pair.row p]⟩ := by
  rcases Db.insertNewNode_inserted (plain_of_dottedQuad hquad p.2) sqlite io ⟨false, nodes⟩ with
    ⟨-, hsame⟩ | ⟨-, hmore⟩
  · exact .inl hsame
  · exact .inr hmore

theorem removeNode_cases (hquad : DottedQuad server) (port : UInt16) (sqlite : Db.Sqlite)
    (io : Db.Calls) (nodes : List Db.Row) :
    (Db.removeNode sqlite io ⟨false, nodes⟩ server port).2 = ⟨false, nodes⟩ ∨
      (Db.removeNode sqlite io ⟨false, nodes⟩ server port).2 =
        ⟨false, nodes.filter (!·.isNode server port.toNat)⟩ := by
  rw [Db.removeNode_plain (plain_of_dottedQuad hquad port)]
  split
  · exact .inr rfl
  · exact .inl rfl

theorem mem_collectNodes (h : Db.collectNodes io i rows = some nodes) (hnode : node ∈ nodes) :
    ∃ r ∈ rows, node = r.toNode := by
  induction rows generalizing i nodes with
  | nil =>
    cases h
    simp at hnode
  | cons r rows ih =>
    unfold Db.collectNodes at h
    split at h
    · split at h
      · obtain ⟨rest, hcollect, rfl⟩ := Option.map_eq_some_iff.mp h
        rcases List.mem_cons.mp hnode with rfl | hnode
        · exact ⟨r, List.mem_cons_self, rfl⟩
        · obtain ⟨r', hr', rfl⟩ := ih hcollect hnode
          exact ⟨r', List.mem_cons_of_mem r hr', rfl⟩
      · contradiction
    · cases h
      simp at hnode

theorem length_collectNodes_le (h : Db.collectNodes io i rows = some nodes) :
    nodes.length ≤ rows.length := by
  induction rows generalizing i nodes with
  | nil =>
    cases h
    exact le_rfl
  | cons r rows ih =>
    unfold Db.collectNodes at h
    split at h
    · split at h
      · obtain ⟨rest, hcollect, rfl⟩ := Option.map_eq_some_iff.mp h
        exact Nat.succ_le_succ (ih hcollect)
      · contradiction
    · cases h
      exact Nat.zero_le _

theorem getAllActiveNodes_cases
    (h : Db.getAllActiveNodes sqlite io ⟨false, rows⟩ (UInt8.ofNat maxActiveNodes) = some nodes) :
    nodes.length ≤ maxActiveNodes ∧ ∀ node ∈ nodes, ∃ r ∈ rows, node = r.toNode := by
  unfold Db.getAllActiveNodes at h
  split at h
  · contradiction
  · rw [Db.rows_activeText, Option.bind_some] at h
    refine ⟨(length_collectNodes_le h).trans (List.length_take_le _ _), fun node hnode => ?_⟩
    obtain ⟨r, hr, rfl⟩ := mem_collectNodes h hnode
    exact ⟨r, (List.mem_filter.mp (List.mem_of_mem_take hr)).1, rfl⟩

theorem tidy_nil : Tidy [] := fun _ hr => absurd hr List.not_mem_nil

theorem tidy_append (h : Tidy nodes) (hquad : DottedQuad p.1) : Tidy (nodes ++ [Pair.row p]) := by
  intro r hr
  rcases List.mem_append.mp hr with hr | hr
  · exact h r hr
  · cases List.mem_singleton.mp hr
    have hlt := p.2.toNat_lt
    exact ⟨hquad, by simp [Pair.row], by simp only [Pair.row]; omega⟩

theorem mem_keys_append {p : Pair} : k ∈ keys (nodes ++ [p.row]) ↔ k = p.key ∨ k ∈ keys nodes := by
  rw [keys, List.map_append, List.mem_append, List.map_singleton, List.mem_singleton, or_comm]
  exact Iff.rfl

-- ---------------------------------------------------------------------------
-- What a reply lists
-- ---------------------------------------------------------------------------

theorem entries_response (host : Host) (isSuccess : Bool) (message : Bytes) :
    entries host (serverProtoResponse isSuccess message) = [] := by
  have hset (o : Object) (name s : Bytes) (hname : name ≠ bytes "data") :
      objectGetValue (some (objectSetString o name s)) (bytes "data") =
        objectGetValue (some o) (bytes "data") := by
    unfold objectSetString valueInitString
    split
    · rw [objectGetValue_setValue, if_neg hname]
    · rfl
  have hparsed := jsonParseString_serialize (writable_responseObject isSuccess message) []
  rw [List.append_nil] at hparsed
  have hnone : listedNodes (serverProtoResponse isSuccess message) = none := by
    rw [listedNodes, serverProtoResponse, payload, hparsed, valueGetObject, objectGetArray,
      responseObject, hset _ _ _ (by decide), hset _ _ _ (by decide)]
    rfl
  rw [entries, hnone]
  rfl

theorem pairs_getNodes (htidy : Tidy nodes)
    (h : handleGetNodes host io ⟨false, nodes⟩ = .done result response db) (host' : Host) :
    ∀ p ∈ (entries host' response).filterMap id, p.key ∈ keys nodes ∧ DottedQuad p.1 := by
  unfold handleGetNodes at h
  split at h
  · cases h
    simp [entries_response]
  split at h
  · contradiction
  split at h
  · contradiction
  split at h
  case h_2 =>
    cases h
    simp [entries_response]
  case h_1 listed hlisted =>
    cases h
    obtain ⟨hlen, hrow⟩ := getAllActiveNodes_cases hlisted
    have hnode : ∀ node ∈ listed, (nodePair node).key ∈ keys nodes ∧ DottedQuad node.serverAddr := by
      intro node hnode
      obtain ⟨r, hr, rfl⟩ := hrow node hnode
      obtain ⟨hquad, -⟩ := htidy r hr
      rw [key_nodePair htidy hr, toNode_serverAddr hquad]
      exact ⟨List.mem_map_of_mem hr, hquad⟩
    rw [entries_dataResponse host' true _ (Nat.lt_of_le_of_lt hlen (by decide)) fun node hmem =>
      ⟨utf8_of_dottedQuad (hnode node hmem).2, (hnode node hmem).2.notMem (by decide) (by decide)⟩]
    intro p hp
    obtain ⟨e, he, rfl⟩ := List.mem_filterMap.mp hp
    obtain ⟨node, hmem, hpair⟩ := List.mem_map.mp he
    cases hpair
    exact hnode node hmem

theorem handleAddNode_cases (hquad : DottedQuad addr) (port : UInt16)
    (h : handleAddNode host io addr (some (constructAddNodeRequest port)) ⟨false, nodes⟩ =
      .done result response db) :
    db = ⟨false, nodes⟩ ∨ db = ⟨false, nodes ++ [Pair.row (addr, port)]⟩ := by
  unfold handleAddNode at h
  split at h
  · cases h
    exact .inl rfl
  split at h
  · contradiction
  split at h
  · contradiction
  · cases h
    rw [Exchange.addNodePort_eq]
    exact insertNewNode_cases (p := (addr, port)) hquad host.sqlite io.calls nodes

-- ---------------------------------------------------------------------------
-- Knowledge
-- ---------------------------------------------------------------------------

def Wire.pairs (host : Host) : Wire → List Pair
  | .listReply reply => (entries host reply).filterMap id
  | .learning nodes i left =>
    (List.range' i left).filterMap fun j => entry host (arrayGetObject nodes j)
  | _ => []

def Phase.pairs (host : Host) : Phase ι → List Pair
  | .starting _ (some v) _ => v.wire.pairs host
  | _ => []

def pairSet (ps : List Pair) : Set (Bytes × Int) := { k | ∃ p ∈ ps, k = p.key }

def keySet (nodes : List Db.Row) : Set (Bytes × Int) := { k | k ∈ keys nodes }

def State.spread (net : Setting ι) (s : State ι) : Gossip.State ι (Bytes × Int) where
  known i := keySet (s.nodes i)
  told i := pairSet ((s.phase i).pairs (net.host i))

/-- The pair of a node that called another, at the address of one that called it. -/
def Introduced (net : Setting ι) (as : List (Label ι)) (k : Bytes × Int) : Prop :=
  ∃ i j b, .call i b ∈ as ∧ .call j b ∈ as ∧ k = Pair.key (inetNtoa (net.seen j b), net.port i)

theorem keySet_append {p : Pair} : keySet (nodes ++ [p.row]) = insert p.key (keySet nodes) :=
  Set.ext fun _ => mem_keys_append

theorem keySet_filter (nodes : List Db.Row) (f : Db.Row → Bool) : keySet (nodes.filter f) ⊆ keySet nodes :=
  fun _ hk => (List.filter_sublist.map key).subset hk

theorem pairSet_mono {ps qs : List Pair} (h : ps ⊆ qs) : pairSet ps ⊆ pairSet qs :=
  fun _ ⟨p, hp, hk⟩ => ⟨p, h hp, hk⟩

theorem pairs_listed (host : Host) (reply : Bytes) :
    (Wire.learning (listedNodes reply) 0 (arrayGetCount (listedNodes reply) % 256)).pairs host =
      (Wire.listReply reply).pairs host := by
  simp only [Wire.pairs, entries, ← List.range_eq_range', List.filterMap_map]
  rfl

theorem pairs_lost {host : Host} (h : Wire.lost wire = some wire') : wire'.pairs host = [] := by
  have hempty : entries host [] = [] := rfl
  unfold Wire.lost at h
  split at h <;> cases h
  · rfl
  · rfl
  · rfl
  · rfl
  · rw [Wire.pairs, hempty]
    rfl
  · rw [Wire.pairs, hempty]
    rfl

theorem pairs_learning (host : Host) (nodes : Option (List Value)) (i left : Nat) :
    (Wire.learning nodes i (left + 1)).pairs host =
      (entry host (arrayGetObject nodes i)).toList ++ (Wire.learning nodes (i + 1) left).pairs host := by
  rw [Wire.pairs, List.range'_succ, List.filterMap_cons]
  cases entry host (arrayGetObject nodes i) <;> rfl

-- ---------------------------------------------------------------------------
-- Phases
-- ---------------------------------------------------------------------------

section
variable {ι : Type} {net : Setting ι} {as : List (Label ι)}

def Phase.visit : Phase ι → Option (Visit ι)
  | .starting _ visit _ => visit
  | _ => none

def Phase.nodes : Phase ι → List Node
  | .starting _ visit rest => (visit.map (·.node)).toList ++ rest
  | _ => []

structure Phase.Sound (net : Setting ι) (as : List (Label ι)) (cell : ι → Bytes) (i : ι)
    (phase : Phase ι) : Prop where
  nodes : ∀ node ∈ phase.nodes, DottedQuad node.serverAddr
  pairs : ∀ p ∈ phase.pairs (net.host i), DottedQuad p.1
  called : ∀ v ∈ phase.visit, .call i v.peer ∈ as ∧
    ∃ j, .call j v.peer ∈ as ∧ cell v.peer = inetNtoa (net.seen j v.peer)

theorem Phase.Sound.idle {cell : ι → Bytes} {phase : Phase ι} (h : phase.nodes = []) (hvisit : phase.visit = none) :
    phase.Sound net as cell i where
  nodes := by simp [h]
  pairs := by
    unfold Phase.pairs
    split
    · simp [Phase.visit] at hvisit
    · simp
  called := by simp [hvisit]

theorem Phase.Sound.between {cell : ι → Bytes} (h : ∀ node ∈ rest, DottedQuad node.serverAddr) :
    (Phase.starting initial none rest).Sound net as cell i where
  nodes := h
  pairs := by simp [Phase.pairs]
  called := by simp [Phase.visit]

theorem Phase.Sound.go {cell : ι → Bytes} {v w : Visit ι}
    (h : (Phase.starting initial (some v) rest).Sound net as cell i) (hnode : w.node = v.node)
    (hpeer : w.peer = v.peer) (hpairs : ∀ p ∈ w.wire.pairs (net.host i), DottedQuad p.1) :
    (Phase.starting initial (some w) rest).Sound net as cell i where
  nodes := by
    have hnodes := h.nodes
    simpa [Phase.nodes, hnode] using hnodes
  pairs := hpairs
  called := by
    have hcalled := h.called v rfl
    simpa [Phase.visit, hpeer] using hcalled

structure Sound (net : Setting ι) (as : List (Label ι)) (s : State ι) : Prop where
  tidy : ∀ i, Tidy (s.nodes i)
  phase : ∀ i, (s.phase i).Sound net as s.cell i

def begin (nodes : ι → List Db.Row) (cell : ι → Bytes) : State ι := ⟨nodes, cell, fun _ => .down⟩

theorem sound_begin {nodes : ι → List Db.Row} (h : ∀ i, Tidy (nodes i)) (cell : ι → Bytes) :
    Sound net as (begin nodes cell) where
  tidy := h
  phase _ := .idle rfl rfl

end

-- ---------------------------------------------------------------------------
-- Moves
-- ---------------------------------------------------------------------------

variable {ι : Type} [DecidableEq ι] {net : Setting ι} {as : List (Label ι)} {s t : State ι}
  {phase : Phase ι}

theorem pairs_cut (host : Host) (b : ι) (phase : Phase ι) : (phase.cut b).pairs host = phase.pairs host := by
  unfold Phase.cut
  split <;> rfl

theorem spread_setNodes (s : State ι) (i : ι) (nodes : List Db.Row) :
    (s.setNodes i nodes).spread net =
      { s.spread net with known := Function.update (s.spread net).known i (keySet nodes) } := by
  simp only [State.spread, State.setNodes, Gossip.State.mk.injEq, and_true]
  funext j
  by_cases hj : j = i
  · subst hj
    simp
  · simp [hj]

theorem spread_setPhase (s : State ι) (i : ι) (phase : Phase ι) :
    (s.setPhase i phase).spread net =
      { s.spread net with
        told := Function.update (s.spread net).told i (pairSet (phase.pairs (net.host i))) } := by
  simp only [State.spread, State.setPhase, Gossip.State.mk.injEq, true_and]
  funext j
  by_cases hj : j = i
  · subst hj
    simp
  · simp [hj]

theorem spread_halt (s : State ι) (i : ι) :
    (s.halt i).spread net =
      { s.spread net with told := Function.update (s.spread net).told i ∅ } := by
  simp only [State.spread, State.halt, Gossip.State.mk.injEq, true_and]
  funext j
  by_cases hj : j = i
  · subst hj
    simp [Phase.pairs, pairSet]
  · simp [hj, pairs_cut]

theorem moves_setPhase (P : Bytes × Int → Prop)
    (h : phase.pairs (net.host i) ⊆ (s.phase i).pairs (net.host i)) :
    Gossip.Moves P (s.spread net) ((s.setPhase i phase).spread net) := by
  rw [spread_setPhase]
  exact .single (.lose i _ (pairSet_mono h))

/-- The node is told pairs of the table of `j`. -/
theorem moves_tell (P : Bytes × Int → Prop)
    (h : ∀ p ∈ phase.pairs (net.host i), p.key ∈ keys (s.nodes j)) :
    Gossip.Moves P (s.spread net) ((s.setPhase i phase).spread net) := by
  rw [spread_setPhase]
  refine .single (.tell i j _ ?_)
  rintro k ⟨p, hp, rfl⟩
  exact h p hp

theorem moves_halt (P : Bytes × Int → Prop) (s : State ι) (i : ι) :
    Gossip.Moves P (s.spread net) ((s.halt i).spread net) := by
  rw [spread_halt]
  exact .single (.lose i _ (Set.empty_subset _))

theorem moves_filter (P : Bytes × Int → Prop) (s : State ι) (i : ι) (f : Db.Row → Bool) :
    Gossip.Moves P (s.spread net) ((s.setNodes i ((s.nodes i).filter f)).spread net) := by
  rw [spread_setNodes]
  exact .single (.forget i _ (keySet_filter _ f))

theorem moves_introduce {P : Bytes × Int → Prop} {p : Pair} (h : P p.key) (s : State ι) (i : ι) :
    Gossip.Moves P (s.spread net) ((s.setNodes i (s.nodes i ++ [p.row])).spread net) := by
  rw [spread_setNodes, keySet_append]
  exact .single (.introduce i _ h)

theorem moves_learn (P : Bytes × Int → Prop) {p : Pair} (h : p ∈ (s.phase i).pairs (net.host i)) :
    Gossip.Moves P (s.spread net) ((s.setNodes i (s.nodes i ++ [p.row])).spread net) := by
  rw [spread_setNodes, keySet_append]
  exact .single (.learn i _ ⟨p, h, rfl⟩)

-- ---------------------------------------------------------------------------
-- One step
-- ---------------------------------------------------------------------------

theorem Phase.Sound.cut {cell : ι → Bytes} (h : phase.Sound net as cell i) (b : ι) :
    (phase.cut b).Sound net as cell i := by
  unfold Phase.cut
  split
  · exact h.go rfl rfl h.pairs
  · exact h

theorem Sound.setPhase (hs : Sound net as s) (h : phase.Sound net as s.cell i) :
    Sound net as (s.setPhase i phase) where
  tidy := hs.tidy
  phase := (Function.forall_update_iff _ _).mpr ⟨h, fun j _ => hs.phase j⟩

theorem Sound.setNodes (hs : Sound net as s) (h : Tidy nodes) : Sound net as (s.setNodes i nodes) where
  tidy := (Function.forall_update_iff _ fun _ => Tidy).mpr ⟨h, fun j _ => hs.tidy j⟩
  phase := hs.phase

theorem Sound.halt (hs : Sound net as s) (i : ι) : Sound net as (s.halt i) where
  tidy := hs.tidy
  phase j := by
    unfold State.halt
    dsimp only
    split
    · exact .idle rfl rfl
    · exact (hs.phase j).cut i

/-- The new call changes whom the connections of `b` are taken for. -/
theorem Sound.call (hs : Sound net as s) (h : .call i b ∈ as) :
    Sound net as { s with cell := Function.update s.cell b (inetNtoa (net.seen i b)) } where
  tidy := hs.tidy
  phase j := by
    refine ⟨(hs.phase j).nodes, (hs.phase j).pairs, fun v hv => ?_⟩
    obtain ⟨hcalled, k, hk, hcell⟩ := (hs.phase j).called v hv
    refine ⟨hcalled, ?_⟩
    by_cases hb : v.peer = b
    · exact ⟨i, hb ▸ h, by simp [hb]⟩
    · exact ⟨k, hk, by simpa [hb] using hcell⟩

-- ---------------------------------------------------------------------------
-- Steps
-- ---------------------------------------------------------------------------

structure Keeps (net : Setting ι) (as : List (Label ι)) (s t : State ι) : Prop where
  sound : Sound net as t
  moves : Gossip.Moves (Introduced net as) (s.spread net) (t.spread net)

theorem Keeps.refl (hs : Sound net as s) : Keeps net as s s := ⟨hs, .refl⟩

theorem keeps_halt (hs : Sound net as s) (i : ι) : Keeps net as s (s.halt i) :=
  ⟨hs.halt i, moves_halt _ s i⟩

theorem keeps_setPhase (hs : Sound net as s) (h : phase.Sound net as s.cell i)
    (hpairs : phase.pairs (net.host i) ⊆ (s.phase i).pairs (net.host i)) :
    Keeps net as s (s.setPhase i phase) :=
  ⟨hs.setPhase h, moves_setPhase _ hpairs⟩

theorem keeps_between (hs : Sound net as s) (i : ι) (initial : Bool)
    (h : ∀ node ∈ rest, DottedQuad node.serverAddr) :
    Keeps net as s (s.setPhase i (.starting initial none rest)) :=
  keeps_setPhase hs (.between h) (List.nil_subset _)

theorem keeps_drop (hs : Sound net as s) (i : ι) (initial : Bool) (hquad : DottedQuad node.serverAddr)
    (hrest : ∀ node ∈ rest, DottedQuad node.serverAddr) (io : Db.Calls) :
    Keeps net as s (s.drop net i initial node rest io) := by
  have hbetween := keeps_between hs i initial hrest
  unfold State.drop
  dsimp only
  split
  · exact hbetween
  · rcases removeNode_cases hquad node.nodeGateway (net.host i).sqlite io (s.nodes i) with h | h
    · rw [nodes_setPhase, h]
      dsimp only
      rw [← nodes_setPhase s i (.starting initial none rest), setNodes_self]
      exact hbetween
    · rw [nodes_setPhase, h]
      refine ⟨hbetween.sound.setNodes fun r hr => hs.tidy i r (List.mem_of_mem_filter hr), ?_⟩
      exact hbetween.moves.trans (moves_filter _ _ i _)

theorem keeps_go {v w : Visit ι} (hs : Sound net as s) (h : s.phase i = .starting initial (some v) rest)
    (hnode : w.node = v.node) (hpeer : w.peer = v.peer)
    (hpairs : w.wire.pairs (net.host i) ⊆ v.wire.pairs (net.host i)) :
    Keeps net as s (s.setPhase i (.starting initial (some w) rest)) := by
  have hphase := h ▸ hs.phase i
  refine keeps_setPhase hs (hphase.go hnode hpeer fun p hp => hphase.pairs p (hpairs hp)) ?_
  rw [h]
  exact hpairs

theorem keeps_tell {v w : Visit ι} (hs : Sound net as s) (h : s.phase i = .starting initial (some v) rest)
    (hnode : w.node = v.node) (hpeer : w.peer = v.peer)
    (hpairs : ∀ p ∈ w.wire.pairs (net.host i), p.key ∈ keys (s.nodes v.peer) ∧ DottedQuad p.1) :
    Keeps net as s (s.setPhase i (.starting initial (some w) rest)) :=
  ⟨hs.setPhase ((h ▸ hs.phase i).go hnode hpeer fun p hp => (hpairs p hp).2),
    moves_tell _ fun p hp => (hpairs p hp).1⟩

theorem keeps_served (hs : Sound net as s) (h : s.phase i = .starting initial (some v) rest)
    (hup : (s.phase v.peer).isUp) (hrequest : v.wire.request (net.port i) = some request)
    (hdone : nodeServerCallback (net.host v.peer) io (s.cell v.peer) (payload request ++ behind)
      ⟨false, s.nodes v.peer⟩ = .done result response db) :
    Keeps net as s ((s.setNodes v.peer db.nodes).setPhase i
      (.starting initial (some { v with wire := v.wire.answered response }) rest)) := by
  obtain ⟨hcalled, j, hj, hcell⟩ := (h ▸ hs.phase i).called v rfl
  cases hwire : v.wire with
  | hello =>
    rw [hwire] at hrequest
    cases hrequest
    rw [Session.handled_hello] at hdone
    cases hdone
    dsimp only
    rw [setNodes_self]
    exact keeps_go hs h rfl rfl (List.nil_subset _)
  | add =>
    rw [hwire] at hrequest
    cases hrequest
    rw [Session.handled_addNode, hcell] at hdone
    have hgo : Keeps net as s (s.setPhase i
        (.starting initial (some { v with wire := .addReply }) rest)) :=
      keeps_go hs h rfl rfl (List.nil_subset _)
    have hquad : DottedQuad (inetNtoa (net.seen j v.peer)) := ⟨_, rfl⟩
    rcases handleAddNode_cases hquad (net.port i) hdone with rfl | rfl
    · dsimp only
      rw [setNodes_self]
      exact hgo
    · have hne : v.peer ≠ i := by
        rintro hsame
        rw [hsame, h] at hup
        contradiction
      have hintroduced : Introduced net as (Pair.key (inetNtoa (net.seen j v.peer), net.port i)) :=
        ⟨i, j, v.peer, hcalled, hj, rfl⟩
      have hmore : Keeps net as s (s.setNodes v.peer (s.nodes v.peer ++
          [Pair.row (inetNtoa (net.seen j v.peer), net.port i)])) :=
        ⟨hs.setNodes (tidy_append (hs.tidy v.peer) hquad), moves_introduce hintroduced s v.peer⟩
      have hlater := keeps_go (w := { v with wire := .addReply }) hmore.sound h rfl rfl (List.nil_subset _)
      exact ⟨hlater.sound, hmore.moves.trans hlater.moves⟩
  | list =>
    rw [hwire] at hrequest
    cases hrequest
    rw [Session.handled_getNodes] at hdone
    have hdb := handleGetNodes_db hdone
    rw [hdb]
    dsimp only
    rw [setNodes_self]
    exact keeps_tell hs h rfl rfl (pairs_getNodes (hs.tidy v.peer) hdone (net.host i))
  | _ =>
    rw [hwire] at hrequest
    contradiction

theorem registerNode_cases (hquad : ∀ p, entry host node = some p → DottedQuad p.1)
    (h : registerNode host own io node ⟨false, nodes⟩ = some db) :
    ∃ p, entry host node = some p ∧ (db = ⟨false, nodes⟩ ∨ db = ⟨false, nodes ++ [Pair.row p]⟩) := by
  obtain ⟨server, hserver, rfl⟩ := Option.map_eq_some_iff.mp h
  have hentry : entry host node = some (server, host.toUshort (objectGetNumber node (bytes "node"))) := by
    rw [entry, hserver]
    rfl
  refine ⟨_, hentry, ?_⟩
  split
  · exact .inl rfl
  · exact insertNewNode_cases (hquad _ hentry) host.sqlite io nodes

theorem keeps_learned (hs : Sound net as s) (h : s.phase i = .starting initial (some v) rest)
    (hwire : v.wire = .learning nodes j (left + 1))
    (hdb : registerNode (net.host i) (net.own i) io (arrayGetObject nodes j) ⟨false, s.nodes i⟩ =
      some db) :
    Keeps net as s ((s.setNodes i db.nodes).setPhase i
      (.starting initial (some { v with wire := .learning nodes (j + 1) left }) rest)) := by
  have hpairs : ∀ p, entry (net.host i) (arrayGetObject nodes j) = some p →
      p ∈ v.wire.pairs (net.host i) := by
    intro p hp
    simp [hwire, pairs_learning, hp]
  have hrest : (Wire.learning nodes (j + 1) left).pairs (net.host i) ⊆ v.wire.pairs (net.host i) := by
    rw [hwire, pairs_learning]
    exact List.subset_append_right _ _
  have hquad : ∀ p ∈ v.wire.pairs (net.host i), DottedQuad p.1 := (h ▸ hs.phase i).pairs
  obtain ⟨p, hp, rfl | rfl⟩ := registerNode_cases (fun p hp => hquad p (hpairs p hp)) hdb
  · dsimp only
    rw [setNodes_self]
    exact keeps_go hs h rfl rfl hrest
  · have hmore : Keeps net as s (s.setNodes i (s.nodes i ++ [Pair.row p])) := by
      refine ⟨hs.setNodes (tidy_append (hs.tidy i) (hquad p (hpairs p hp))), moves_learn _ ?_⟩
      rw [h]
      exact hpairs p hp
    have hlater := keeps_go (w := { v with wire := .learning nodes (j + 1) left }) hmore.sound h rfl rfl hrest
    exact ⟨hlater.sound, hmore.moves.trans hlater.moves⟩

theorem Does.keeps (hs : Sound net as s) (h : Does net s l t) (hl : l ∈ as) : Keeps net as s t := by
  cases h with
  | boot h => exact keeps_between hs _ true dottedQuad_initNodes
  | skip h =>
    have hnodes := (h ▸ hs.phase _).nodes
    exact keeps_between hs _ _ fun node hnode => hnodes node (List.mem_cons_of_mem _ hnode)
  | miss h =>
    have hnodes := (h ▸ hs.phase _).nodes
    exact keeps_drop hs _ _ (hnodes _ List.mem_cons_self)
      (fun node hnode => hnodes node (List.mem_cons_of_mem _ hnode)) _
  | @call i initial node rest b h =>
    have hnodes := (h ▸ hs.phase i).nodes
    have hcell := hs.call hl
    have hphase : (Phase.starting initial (some ⟨node, b, true, .hello⟩) rest).Sound net as
        (Function.update s.cell b (inetNtoa (net.seen i b))) i :=
      ⟨hnodes, by simp [Phase.pairs, Wire.pairs], by
        rintro v hv
        cases hv
        exact ⟨hl, i, hl, by simp⟩⟩
    have hkeeps := keeps_setPhase hcell hphase (List.nil_subset _)
    exact ⟨hkeeps.sound, hkeeps.moves⟩
  | served h _ hup hrequest hdone => exact keeps_served hs h hup hrequest hdone
  | lost h hwire =>
    exact keeps_go hs h rfl rfl (by rw [pairs_lost hwire]; exact List.nil_subset _)
  | accepted h => exact keeps_go hs h rfl rfl (List.nil_subset _)
  | refused h =>
    have hnodes := (h ▸ hs.phase _).nodes
    exact keeps_drop hs _ _ (hnodes _ List.mem_cons_self)
      (fun node hnode => hnodes node (List.mem_cons_of_mem _ hnode)) _
  | added h => exact keeps_go hs h rfl rfl (List.nil_subset _)
  | listed h hwire =>
    refine keeps_go hs h rfl rfl ?_
    rw [pairs_listed, hwire]
    exact List.Subset.refl _
  | learned h hwire hdb => exact keeps_learned hs h hwire hdb
  | left h =>
    have hnodes := (h ▸ hs.phase _).nodes
    exact keeps_between hs _ _ fun node hnode => hnodes node (List.mem_cons_of_mem _ hnode)
  | loaded h hnodes =>
    refine keeps_between hs _ false fun node hnode => ?_
    obtain ⟨r, hr, rfl⟩ := (getAllActiveNodes_cases hnodes).2 node hnode
    obtain ⟨hquad, -⟩ := hs.tidy _ r hr
    rwa [toNode_serverAddr hquad]
  | finish h => exact keeps_setPhase hs (.idle rfl rfl) (List.nil_subset _)
  | halt h => exact keeps_halt hs _

-- ---------------------------------------------------------------------------
-- Runs
-- ---------------------------------------------------------------------------

theorem keeps_run (hs : Sound net as s) (hrun : run (step net) s as = some t) : Keeps net as s t := by
  refine invariant_each (C := fun _ l => l ∈ as) (I := Keeps net as s) (fun u l u' hl hu hstep => ?_)
    hrun (each_mem s as) (.refl hs)
  have hkeeps := (step_does hstep).keeps hu.sound hl
  exact ⟨hkeeps.sound, hu.moves.trans hkeeps.moves⟩

/-- A pair that any table has at the end of a run was in a table at its beginning, or
is that of a node that called another. -/
theorem origin_of_run {nodes : ι → List Db.Row} {cell : ι → Bytes} (htidy : ∀ i, Tidy (nodes i))
    (hrun : run (step net) (begin nodes cell) as = some t) (i : ι) :
    Tidy (t.nodes i) ∧ ∀ k ∈ keys (t.nodes i), (∃ j, k ∈ keys (nodes j)) ∨ Introduced net as k := by
  have hkeeps := keeps_run (sound_begin htidy cell) hrun
  refine ⟨hkeeps.sound.tidy i, fun k hk => ?_⟩
  rcases hkeeps.moves.origin i k hk with hnew | ⟨j, hold | htold⟩
  · exact .inr hnew
  · exact .inl ⟨j, hold⟩
  · obtain ⟨p, hp, -⟩ := htold
    exact absurd hp List.not_mem_nil

-- ---------------------------------------------------------------------------
-- Nodes that are up
-- ---------------------------------------------------------------------------

def Phase.isStarting : Phase ι → Bool
  | .starting .. => true
  | _ => false

theorem isStarting_cut (b : ι) (phase : Phase ι) : (phase.cut b).isStarting = phase.isStarting := by
  unfold Phase.cut
  split <;> rfl

/-- A table that its node does not change as it starts only grows. -/
structure Lasts (s t : State ι) (i : ι) : Prop where
  grows : s.nodes i <+: t.nodes i
  settled : (t.phase i).isStarting = false

theorem lasts_setPhase (hi : (s.phase i).isStarting = false) (hj : (s.phase j).isStarting)
    (phase : Phase ι) : Lasts s (s.setPhase j phase) i := by
  have hne : i ≠ j := by
    rintro rfl
    simp [hi] at hj
  exact ⟨List.prefix_rfl, by simpa [State.setPhase, hne] using hi⟩

theorem lasts_halt (hi : (s.phase i).isStarting = false) (j : ι) : Lasts s (s.halt j) i := by
  refine ⟨List.prefix_rfl, ?_⟩
  unfold State.halt
  dsimp only
  split
  · rfl
  · rwa [isStarting_cut]

theorem lasts_setNodes (hi : (s.phase i).isStarting = false) (h : s.nodes j <+: nodes) :
    Lasts s (s.setNodes j nodes) i := by
  refine ⟨?_, hi⟩
  by_cases hij : i = j
  · subst hij
    simpa [State.setNodes] using h
  · simp [State.setNodes, hij]

theorem lasts_drop (hi : (s.phase i).isStarting = false) (hj : (s.phase j).isStarting)
    (initial : Bool) (node : Node) (rest : List Node) (io : Db.Calls) :
    Lasts s (s.drop net j initial node rest io) i := by
  have hphase := lasts_setPhase hi hj (.starting initial none rest)
  have hne : i ≠ j := by
    rintro rfl
    simp [hi] at hj
  unfold State.drop
  dsimp only
  split
  · exact hphase
  · refine ⟨?_, hphase.settled⟩
    simp [State.setNodes, hne]

theorem lasts_served {v : Visit ι} (hi : (s.phase i).isStarting = false) (hj : (s.phase j).isStarting)
    (hwire : v.wire.request port = some request) (hcell : DottedQuad addr)
    (hdone : nodeServerCallback host io addr (payload request ++ behind) ⟨false, s.nodes v.peer⟩ =
      .done result response db) (phase : Phase ι) :
    Lasts s ((s.setNodes v.peer db.nodes).setPhase j phase) i := by
  have hdb : db = ⟨false, s.nodes v.peer⟩ ∨ ∃ p, db = ⟨false, s.nodes v.peer ++ [Pair.row p]⟩ := by
    unfold Wire.request at hwire
    split at hwire <;> cases hwire
    · rw [Session.handled_hello] at hdone
      cases hdone
      exact .inl rfl
    · rw [Session.handled_addNode] at hdone
      exact (handleAddNode_cases hcell _ hdone).imp_right fun h => ⟨_, h⟩
    · rw [Session.handled_getNodes] at hdone
      exact .inl (handleGetNodes_db hdone)
  have hgrows : s.nodes v.peer <+: db.nodes := by
    rcases hdb with rfl | ⟨p, rfl⟩
    · exact List.prefix_rfl
    · exact List.prefix_append _ _
  have hnodes := lasts_setNodes hi hgrows
  exact ⟨hnodes.grows, (lasts_setPhase (s := s.setNodes v.peer db.nodes) hi hj phase).settled⟩

/-- A node that is visited takes its caller for an IPv4 address, whatever its table is. -/
def Called (s : State ι) : Prop := ∀ i, ∀ v ∈ (s.phase i).visit, DottedQuad (s.cell v.peer)

omit [DecidableEq ι] in
theorem called_begin (nodes : ι → List Db.Row) (cell : ι → Bytes) : Called (begin nodes cell) := by
  rintro i v hv
  contradiction

theorem Called.setPhase (hs : Called s) (h : ∀ v ∈ phase.visit, DottedQuad (s.cell v.peer)) :
    Called (s.setPhase i phase) :=
  (Function.forall_update_iff s.phase fun _ p => ∀ v ∈ p.visit, DottedQuad (s.cell v.peer)).mpr ⟨h, fun j _ => hs j⟩

theorem Called.go {v w : Visit ι} (hs : Called s) (h : s.phase i = .starting initial (some v) rest)
    (hpeer : w.peer = v.peer) : Called (s.setPhase i (.starting initial (some w) rest)) := by
  refine hs.setPhase ?_
  rintro _ ⟨⟩
  rw [hpeer]
  exact hs i v (by rw [h]; rfl)

theorem Called.drop (hs : Called s) (initial : Bool) (node : Node) (rest : List Node) (io : Db.Calls) :
    Called (s.drop net i initial node rest io) := by
  have hbetween : Called (s.setPhase i (.starting initial none rest)) :=
    hs.setPhase fun _ hv => nomatch hv
  unfold State.drop
  dsimp only
  split
  · exact hbetween
  · exact hbetween

theorem exists_of_visit_cut {v : Visit ι} (h : v ∈ (phase.cut b).visit) :
    ∃ w ∈ phase.visit, w.peer = v.peer := by
  unfold Phase.cut at h
  split at h
  · cases h
    exact ⟨_, rfl, rfl⟩
  · exact ⟨v, h, rfl⟩

theorem Called.halt (hs : Called s) (i : ι) : Called (s.halt i) := by
  intro j v hv
  unfold State.halt at hv ⊢
  dsimp only at hv ⊢
  split at hv
  · contradiction
  · obtain ⟨w, hw, hpeer⟩ := exists_of_visit_cut hv
    exact hpeer ▸ hs j w hw

theorem Called.call (hs : Called s) (i b : ι) :
    Called { s with cell := Function.update s.cell b (inetNtoa (net.seen i b)) } := by
  intro j v hv
  by_cases hb : v.peer = b
  · simp only [hb, Function.update_self]
    exact ⟨_, rfl⟩
  · simp only [Function.update_of_ne hb]
    exact hs j v hv

theorem Does.called (hs : Called s) (h : Does net s l t) : Called t := by
  cases h with
  | boot | skip | left | loaded | finish => exact hs.setPhase fun _ hv => nomatch hv
  | miss | refused => exact hs.drop _ _ _ _
  | @call i initial node rest b =>
    refine (hs.call i b).setPhase ?_
    rintro _ ⟨⟩
    exact ⟨net.seen i b, by simp⟩
  | served h | learned h => exact hs.go h rfl
  | lost h | accepted h | added h | listed h => exact hs.go h rfl
  | halt => exact hs.halt _

theorem Does.lasts (hs : Called s) (h : Does net s l t) (hi : (s.phase i).isStarting = false)
    (hl : l ≠ .boot i) : Lasts s t i := by
  cases h with
  | @boot j h =>
    have hne : i ≠ j := by
      rintro rfl
      exact hl rfl
    exact ⟨List.prefix_rfl, by simpa [State.setPhase, hne] using hi⟩
  | miss h | refused h => exact lasts_drop hi (by rw [h]; rfl) _ _ _ _
  | served h _ _ hrequest hdone =>
    exact lasts_served hi (by rw [h]; rfl) hrequest (hs _ _ (by rw [h]; rfl)) hdone _
  | @learned j _ _ _ _ _ _ _ _ h =>
    have hne : i ≠ j := by
      rintro rfl
      rw [h] at hi
      contradiction
    exact ⟨by simp [State.setNodes, hne], (lasts_setPhase hi (by rw [h]; rfl) _).settled⟩
  | halt h => exact lasts_halt hi _
  | call h =>
    exact ⟨List.prefix_rfl, (lasts_setPhase hi (by rw [h]; rfl) _).settled⟩
  | skip h | lost h | accepted h | added h | listed h | left h | loaded h | finish h =>
    exact lasts_setPhase hi (by rw [h]; rfl) _

/-- A node that is up, or down, keeps every row of its table in its place, whatever
the others do, until it starts again. -/
theorem lasts_of_run {nodes : ι → List Db.Row} {cell : ι → Bytes}
    (hbefore : run (step net) (begin nodes cell) as = some s) (hrun : run (step net) s bs = some t)
    (hi : (s.phase i).isStarting = false) (hboot : .boot i ∉ bs) : Lasts s t i := by
  have hcalled : Called s :=
    invariant (fun _ _ _ hu hstep => (step_does hstep).called hu) hbefore (called_begin nodes cell)
  refine (invariant_each (C := fun _ l => l ∈ bs) (I := fun u => Called u ∧ Lasts s u i)
    (fun u l u' hl hu hstep => ?_) hrun (each_mem s bs) ⟨hcalled, List.prefix_rfl, hi⟩).2
  have hdoes := step_does hstep
  have hlasts := hdoes.lasts hu.1 hu.2.settled fun h => hboot (h ▸ hl)
  exact ⟨hdoes.called hu.1, hu.2.grows.trans hlasts.grows, hlasts.settled⟩

-- ---------------------------------------------------------------------------
-- A hub and a second node
-- ---------------------------------------------------------------------------

def hubLabels : List (Label (Fin 3)) :=
  [.boot hubNode, .skip hubNode, .skip hubNode] ++ List.replicate 3 (.miss hubNode .ok) ++
    [.load hubNode .ok, .finish hubNode]

/-- A node visits the initial nodes, of which the second one is the hub. Its reply has
`n` elements. -/
def greetLabels (i : Fin 3) (n : Nat) : List (Label (Fin 3)) :=
  [.boot i, .skip i] ++ exchangeLabels i hubNode (fun _ => []) n ++ List.replicate 3 (.miss i .ok)

def allDown : State (Fin 3) := begin (fun _ => []) fun _ => []

theorem origin_of_run_hub :
    ∃ t, run (step sampleNetwork) allDown (hubLabels ++ greetLabels secondNode 1) = some t ∧
      keys (t.nodes hubNode) = [(bytes "172.17.0.2", 9060)] ∧ Tidy (t.nodes hubNode) ∧
      ∀ k ∈ keys (t.nodes hubNode), (∃ j : Fin 3, k ∈ keys (allDown.nodes j)) ∨
        Introduced sampleNetwork (hubLabels ++ greetLabels secondNode 1) k := by
  have hkeys : (run (step sampleNetwork) allDown (hubLabels ++ greetLabels secondNode 1)).map
      (fun t => keys (t.nodes hubNode)) = some [(bytes "172.17.0.2", 9060)] := by decide +kernel
  obtain ⟨t, hrun, ht⟩ := Option.map_eq_some_iff.mp hkeys
  exact ⟨t, hrun, ht, origin_of_run (fun _ => tidy_nil) hrun hubNode⟩

theorem lasts_of_run_hub :
    ∃ s t, run (step sampleNetwork) allDown hubLabels = some s ∧
      run (step sampleNetwork) s (greetLabels secondNode 1) = some t ∧ s.nodes hubNode ≠ t.nodes hubNode ∧ Lasts s t hubNode := by
  have hfirst : (run (step sampleNetwork) allDown hubLabels).map
      (fun s => (s.nodes hubNode, (s.phase hubNode).isStarting)) = some ([], false) := by decide +kernel
  have hboth : (run (step sampleNetwork) allDown (hubLabels ++ greetLabels secondNode 1)).map
      (fun t => keys (t.nodes hubNode)) = some [(bytes "172.17.0.2", 9060)] := by decide +kernel
  obtain ⟨s, hs, hbefore⟩ := Option.map_eq_some_iff.mp hfirst
  obtain ⟨hnodes, hsettled⟩ := Prod.mk.inj hbefore
  obtain ⟨t, hrun, ht⟩ := Option.map_eq_some_iff.mp hboth
  rw [run_append, hs, Option.bind_some] at hrun
  have hboot : Label.boot hubNode ∉ greetLabels secondNode 1 := by
    simp [greetLabels, exchangeLabels, hubNode, secondNode]
  refine ⟨s, t, hs, hrun, fun hsame => ?_, lasts_of_run hs hrun hsettled hboot⟩
  rw [← hsame, hnodes] at ht
  simp [keys] at ht

end GeoNS.Geonsp.Network
