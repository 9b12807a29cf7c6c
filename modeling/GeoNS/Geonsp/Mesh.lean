import GeoNS.Geonsp.Origin

/-!
# Nodes that know each other

A hub is up, and the others start one at a time. Where every address leads to its
node, the database works and nobody is missed who is up, all nodes that are up know
each other. The hub is in no table: the others reach it as one of the initial nodes.
-/

namespace GeoNS.Geonsp.Network

open CString Parson Inet Runs
open Ping (initNodes listedNodes plain_of_dottedQuad toNode_serverAddr dottedQuad_initNodes)

def Works (io : Db.NodeCalls) : Prop := io.prepare ∧ ∀ n < maxActiveNodes, io.step n ∧ io.alloc n

instance : DecidablePred Works := fun _ => inferInstanceAs (Decidable (_ ∧ _))

/-- A table whose pairs are all from a list that one reply has room for. -/
structure Neat (pairs : Finset (Bytes × Int)) (nodes : List Db.Row) : Prop where
  tidy : Tidy nodes
  active : ∀ r ∈ nodes, r.status = Db.active
  distinct : (keys nodes).Nodup
  known : ∀ k ∈ keys nodes, k ∈ pairs

section
variable {ι : Type} (net : Setting ι) (addr : ι → Ipv4) (hub : ι)

def Setting.pair (i : ι) : Pair := (inetNtoa (addr i), net.port i)

/-- Every address leads to its node, one reply has room for all pairs, and the hub is one
of the initial nodes. -/
structure Layout (pairs : Finset (Bytes × Int)) : Prop where
  seen : ∀ i b, net.seen i b = addr i
  site : ∀ i, net.site (inetNtoa (addr i)) (net.port i) = some i
  other : ∀ i j, i ≠ j → isMyIp (net.own i) (inetNtoa (addr j)) = false
  ascii : ∀ i, ∀ c ∈ (net.host i).compileTime, c < 128
  initial : ∃ node ∈ initNodes, net.site node.serverAddr node.nodeGateway = some hub ∧
    ∀ i, i ≠ hub → isMyIp (net.own i) node.serverAddr = false
  mem : ∀ i, (net.pair addr i).key ∈ pairs
  card : pairs.card ≤ maxActiveNodes

def IsDown (s : State ι) (node : Node) : Prop :=
  ∀ b ∈ net.site node.serverAddr node.nodeGateway, (s.phase b).isUp = false

/-- One node starts at a time, nobody is missed or lost who is up, the calls of the
database go through, and the hub stays. -/
def Calm (s : State ι) : Label ι → Prop
  | .boot _ => ∀ j, (s.phase j).isStarting = false
  | .miss i _ => ∀ node ∈ (s.phase i).nodes.head?, IsDown net s node
  | .serve _ _ io => io.opened ∧ io.connected ∧ io.configured ∧ io.calls = .ok ∧ Works io.nodes
  | .lose i _ => ∀ v ∈ (s.phase i).visit, (s.phase v.peer).isUp = false
  | .learn _ io => io = .ok
  | .load _ io => Works io
  | .stop i => i ≠ hub
  | .skip _ | .call .. | .receive .. | .finish _ => True

def Knows (s : State ι) (i j : ι) : Prop := (net.pair addr j).key ∈ keys (s.nodes i)

def Others (s : State ι) (i j : ι) : Prop := (s.phase j).isUp ∧ j ≠ i ∧ j ≠ hub

def Meshed (s : State ι) : Prop := ∀ i j, (s.phase i).isUp → Others hub s i j → Knows net addr s i j

end

-- ---------------------------------------------------------------------------
-- Neat tables
-- ---------------------------------------------------------------------------

section
variable {pairs : Finset (Bytes × Int)}

theorem Pair.key_injective {p q : Pair} (h : p.key = q.key) : p = q := by
  obtain ⟨hserver, hport⟩ := Prod.mk.inj h
  exact Prod.ext hserver (UInt16.toNat_inj.mp (Int.ofNat.inj hport))

theorem Neat.length_le (h : Neat pairs nodes) (hcard : pairs.card ≤ maxActiveNodes) :
    nodes.length ≤ maxActiveNodes := by
  have hsub : (keys nodes).toFinset ⊆ pairs := fun k hk => h.known k (List.mem_toFinset.mp hk)
  calc nodes.length = (keys nodes).length := (List.length_map key).symm
    _ = (keys nodes).toFinset.card := (List.toFinset_card_of_nodup h.distinct).symm
    _ ≤ pairs.card := Finset.card_le_card hsub
    _ ≤ maxActiveNodes := hcard

theorem collectNodes_works (io : Db.NodeCalls) (i : Nat) (rows : List Db.Row)
    (h : ∀ n < i + rows.length, io.step n ∧ io.alloc n) :
    Db.collectNodes io i rows = some (rows.map Db.Row.toNode) := by
  induction rows generalizing i with
  | nil => rfl
  | cons r rows ih =>
    rw [List.length_cons] at h
    obtain ⟨hstep, halloc⟩ := h i (by omega)
    have hrest := ih (i + 1) fun n hn => h n (by omega)
    rw [Db.collectNodes, if_pos hstep, if_pos halloc, hrest]
    rfl

theorem Neat.load (h : Neat pairs nodes) (hcard : pairs.card ≤ maxActiveNodes) (hio : Works io)
    (sqlite : Db.Sqlite) :
    Db.getAllActiveNodes sqlite io ⟨false, nodes⟩ (UInt8.ofNat maxActiveNodes) =
      some (nodes.map Db.Row.toNode) := by
  have hlen := h.length_le hcard
  have hactive : nodes.filter (·.status == Db.active) = nodes :=
    List.filter_eq_self.mpr fun r hr => by simp [h.active r hr]
  have hmax : (UInt8.ofNat maxActiveNodes).toNat = maxActiveNodes := rfl
  have hopen : (false || !io.prepare) = false := by simp [hio.1]
  rw [Db.getAllActiveNodes, hopen, if_neg Bool.false_ne_true, Db.rows_activeText, Option.bind_some,
    hactive, hmax, List.take_of_length_le hlen]
  exact collectNodes_works io 0 nodes fun n hn => hio.2 n (by omega)

theorem Neat.insertPair (h : Neat pairs nodes) (hquad : DottedQuad p.1) (hp : p.key ∈ pairs) :
    Neat pairs (insertPair nodes p) where
  tidy := tidy_insertPair h.tidy hquad
  active r hr := by
    unfold Geonsp.insertPair at hr
    split at hr
    · exact h.active r hr
    · rcases List.mem_append.mp hr with hr | hr
      · exact h.active r hr
      · rw [List.mem_singleton.mp hr]
        rfl
  distinct := nodup_insertPair h.distinct p
  known k hk := by
    rcases (mem_keys_insertPair (check_of_dottedQuad hquad _)).mp hk with hk | rfl
    · exact h.known k hk
    · exact hp

theorem Neat.learn (h : Neat pairs nodes) (own : List Ipv4) (hquad : DottedQuad p.1)
    (hp : p.key ∈ pairs) : Neat pairs (learn own nodes p) := by
  unfold Geonsp.learn
  split
  · exact h
  · exact h.insertPair hquad hp

theorem Neat.filter (h : Neat pairs nodes) (f : Db.Row → Bool) : Neat pairs (nodes.filter f) where
  tidy r hr := h.tidy r (List.mem_of_mem_filter hr)
  active r hr := h.active r (List.mem_of_mem_filter hr)
  distinct := h.distinct.sublist (List.filter_sublist.map key)
  known k hk := h.known k (keySet_filter nodes f hk)

theorem Neat.pairs_getNodes (h : Neat pairs nodes) (hcard : pairs.card ≤ maxActiveNodes)
    (hopened : io.opened) (hconnected : io.connected) (hconfigured : io.configured)
    (hio : Works io.nodes) (host host' : Host) :
    ∃ response, handleGetNodes host io ⟨false, nodes⟩ = .done 0 response ⟨false, nodes⟩ ∧
      ((entries host' response).filterMap id).map Pair.key = keys nodes := by
  have hload := h.load hcard hio host.sqlite
  refine ⟨serverProtoDataResponse true (bytes "Successfully fetched list of nodes.")
    (nodesArray (nodes.map Db.Row.toNode)), ?_, ?_⟩
  · simp only [handleGetNodes, hopened, hconnected, hconfigured, hload]
    rfl
  · have hlen : (nodes.map Db.Row.toNode).length < 256 := by
      rw [List.length_map]
      exact Nat.lt_of_le_of_lt (h.length_le hcard) (by decide)
    rw [entries_dataResponse host' true _ hlen fun node hnode => by
      obtain ⟨r, hr, rfl⟩ := List.mem_map.mp hnode
      obtain ⟨hquad, -⟩ := h.tidy r hr
      rw [toNode_serverAddr hquad]
      exact ⟨utf8_of_dottedQuad hquad, hquad.notMem (by decide) (by decide)⟩]
    rw [List.map_map, List.filterMap_map, Function.comp_def]
    simp only [Function.comp_apply, id_eq, List.filterMap_eq_map', List.map_map]
    exact List.map_congr_left fun r hr => key_nodePair h.tidy hr

end

-- ---------------------------------------------------------------------------
-- A node that starts
-- ---------------------------------------------------------------------------

def Wire.isEarly : Wire → Bool
  | .hello | .helloReply _ | .add => true
  | _ => false

section
variable {ι : Type} (net : Setting ι) (addr : ι → Ipv4) (hub : ι)

structure Visit.Holds (s : State ι) (i : ι) (v : Visit ι) : Prop where
  site : net.site v.node.serverAddr v.node.nodeGateway = some v.peer
  connected : (s.phase v.peer).isUp → v.connected
  cell : v.wire.isEarly → (s.phase v.peer).isUp → s.cell v.peer = inetNtoa (addr i)
  greeted : ∀ reply, v.wire = .helloReply reply → (s.phase v.peer).isUp → helloAccepted reply = some true

def Learns (s : State ι) (i : ι) (told : List Pair) : Prop :=
  ∀ j, Others hub s i j → Knows net addr s i j ∨ net.pair addr j ∈ told

inductive AtHub (s : State ι) (i : ι) : Wire → Prop
  | early (h : wire.isEarly) : AtHub s i wire
  | added (hknows : Knows net addr s hub i) : AtHub s i .addReply
  | list (hknows : Knows net addr s hub i) : AtHub s i .list
  | told (hknows : Knows net addr s hub i) (h : Learns net addr hub s i (wire.pairs (net.host i))) :
    AtHub s i wire

inductive Greets (s : State ι) (i : ι) : Option (Visit ι) → List Node → Prop
  | ahead (h : node ∈ rest) (hsite : net.site node.serverAddr node.nodeGateway = some hub)
    (hown : isMyIp (net.own i) node.serverAddr = false) : Greets s i visit rest
  | here (hpeer : v.peer = hub) (h : AtHub net addr hub s i v.wire) : Greets s i (some v) rest
  | done (hknows : Knows net addr s hub i) (h : Learns net addr hub s i []) : Greets s i visit rest

inductive Meets (s : State ι) (i j : ι) : Option (Visit ι) → List Node → Prop
  | ahead (h : node ∈ rest) (haddr : (node.serverAddr, node.nodeGateway) = net.pair addr j) :
    Meets s i j visit rest
  | early (hpeer : v.peer = j) (h : v.wire.isEarly) : Meets s i j (some v) rest
  | done (h : Knows net addr s j i) : Meets s i j visit rest

def Progress (s : State ι) (i : ι) : Phase ι → Prop
  | .starting true visit rest => Greets net addr hub s i visit rest
  | .starting false visit rest =>
    Knows net addr s hub i ∧ Learns net addr hub s i [] ∧
      ∀ j, Others hub s i j → Meets net addr s i j visit rest
  | _ => True

structure Starts (pairs : Finset (Bytes × Int)) (s : State ι) (i : ι) (phase : Phase ι) : Prop where
  nodes : ∀ node ∈ phase.nodes, DottedQuad node.serverAddr
  told : ∀ p ∈ phase.pairs (net.host i), DottedQuad p.1 ∧ p.key ∈ pairs
  visit : ∀ v ∈ phase.visit, v.Holds net addr s i
  progress : Progress net addr hub s i phase

structure Inv (pairs : Finset (Bytes × Int)) (s : State ι) : Prop where
  neat : ∀ i, Neat pairs (s.nodes i)
  hubUp : (s.phase hub).isUp
  mesh : Meshed net addr hub s
  single : ∀ i j, (s.phase i).isStarting → (s.phase j).isStarting → i = j
  starts : ∀ i, (s.phase i).isStarting → Starts net addr hub pairs s i (s.phase i)

end

variable {ι : Type} {net : Setting ι} {addr : ι → Ipv4} {hub : ι}
  {pairs : Finset (Bytes × Int)} {s t : State ι} {phase : Phase ι}

structure Later (s t : State ι) : Prop where
  grows : ∀ i, keys (s.nodes i) ⊆ keys (t.nodes i)
  up : ∀ i, (t.phase i).isUp → (s.phase i).isUp

theorem Later.knows (h : Later s t) (hk : Knows net addr s i j) : Knows net addr t i j := h.grows i hk

theorem Later.others (h : Later s t) (hj : Others hub t i j) : Others hub s i j := ⟨h.up j hj.1, hj.2⟩

theorem Later.learns (h : Later s t) (hl : Learns net addr hub s i told) : Learns net addr hub t i told :=
  fun j hj => (hl j (h.others hj)).imp_left h.knows

theorem Later.atHub (h : Later s t) (ha : AtHub net addr hub s i wire) : AtHub net addr hub t i wire := by
  cases ha with
  | early hwire => exact .early hwire
  | added hknows => exact .added (h.knows hknows)
  | list hknows => exact .list (h.knows hknows)
  | told hknows hlearns => exact .told (h.knows hknows) (h.learns hlearns)

theorem Later.greets (h : Later s t) (hg : Greets net addr hub s i visit rest) :
    Greets net addr hub t i visit rest := by
  cases hg with
  | ahead hmem hsite hown => exact .ahead hmem hsite hown
  | here hpeer hat => exact .here hpeer (h.atHub hat)
  | done hknows hlearns => exact .done (h.knows hknows) (h.learns hlearns)

theorem Later.meets (h : Later s t) (hm : Meets net addr s i j visit rest) :
    Meets net addr t i j visit rest := by
  cases hm with
  | ahead hmem haddr => exact .ahead hmem haddr
  | early hpeer hwire => exact .early hpeer hwire
  | done hknows => exact .done (h.knows hknows)

theorem Later.progress (h : Later s t) (hp : Progress net addr hub s i phase) :
    Progress net addr hub t i phase := by
  unfold Progress at hp ⊢
  split
  · exact h.greets hp
  · exact ⟨h.knows hp.1, h.learns hp.2.1, fun j hj => h.meets (hp.2.2 j (h.others hj))⟩
  · trivial

theorem Later.starts (h : Later s t) (hcell : t.cell = s.cell) (hs : Starts net addr hub pairs s i phase) :
    Starts net addr hub pairs t i phase where
  nodes := hs.nodes
  told := hs.told
  visit v hv := by
    have hold := hs.visit v hv
    exact ⟨hold.site, fun hup => hold.connected (h.up _ hup),
      fun hearly hup => hcell ▸ hold.cell hearly (h.up _ hup),
      fun reply hwire hup => hold.greeted reply hwire (h.up _ hup)⟩
  progress := h.progress hs.progress

theorem Later.meshed (h : Later s t) (hm : Meshed net addr hub s) : Meshed net addr hub t :=
  fun i j hi hj => h.knows (hm i j (h.up i hi) (h.others hj))

-- ---------------------------------------------------------------------------
-- Progress
-- ---------------------------------------------------------------------------

theorem Progress.go {v w : Visit ι} (hp : Progress net addr hub s i (.starting initial (some v) rest))
    (hpeer : w.peer = v.peer)
    (hhub : v.peer = hub → AtHub net addr hub s i v.wire → AtHub net addr hub s i w.wire)
    (hmeet : v.wire.isEarly → (s.phase v.peer).isUp → w.wire.isEarly ∨ Knows net addr s v.peer i) :
    Progress net addr hub s i (.starting initial (some w) rest) := by
  cases initial with
  | true =>
    cases (hp : Greets net addr hub s i (some v) rest) with
    | ahead hmem hsite hown => exact .ahead hmem hsite hown
    | here hv hat => exact .here (hpeer.trans hv) (hhub hv hat)
    | done hknows hlearns => exact .done hknows hlearns
  | false =>
    obtain ⟨hknows, hlearns, hmeets⟩ := hp
    refine ⟨hknows, hlearns, fun j hj => ?_⟩
    cases hmeets j hj with
    | ahead hmem haddr => exact .ahead hmem haddr
    | early hv hearly =>
      rcases hmeet hearly (hv ▸ hj.1) with hearly | hknows
      · exact .early (hpeer.trans hv) hearly
      · exact .done (hv ▸ hknows)
    | done hknows => exact .done hknows

theorem Progress.leave {v : Visit ι} (hp : Progress net addr hub s i (.starting initial (some v) rest))
    (hhub : v.peer = hub → AtHub net addr hub s i v.wire →
      Knows net addr s hub i ∧ Learns net addr hub s i [])
    (hmeet : v.wire.isEarly → (s.phase v.peer).isUp = false) :
    Progress net addr hub s i (.starting initial none rest) := by
  cases initial with
  | true =>
    cases (hp : Greets net addr hub s i (some v) rest) with
    | ahead hmem hsite hown => exact .ahead hmem hsite hown
    | here hv hat => exact .done (hhub hv hat).1 (hhub hv hat).2
    | done hknows hlearns => exact .done hknows hlearns
  | false =>
    obtain ⟨hknows, hlearns, hmeets⟩ := hp
    refine ⟨hknows, hlearns, fun j hj => ?_⟩
    cases hmeets j hj with
    | ahead hmem haddr => exact .ahead hmem haddr
    | early hv hearly =>
      have hgone := hmeet hearly
      rw [hv, hj.1] at hgone
      contradiction
    | done hknows => exact .done hknows

theorem Progress.next (hp : Progress net addr hub s i (.starting initial none (node :: rest)))
    (hhub : net.site node.serverAddr node.nodeGateway = some hub →
      isMyIp (net.own i) node.serverAddr = false → Greets net addr hub s i visit rest)
    (hmeet : ∀ j, Others hub s i j → (node.serverAddr, node.nodeGateway) = net.pair addr j →
      Meets net addr s i j visit rest) :
    Progress net addr hub s i (.starting initial visit rest) := by
  cases initial with
  | true =>
    cases (hp : Greets net addr hub s i none (node :: rest)) with
    | ahead hmem hsite hown =>
      rcases List.mem_cons.mp hmem with rfl | hmem
      · exact hhub hsite hown
      · exact .ahead hmem hsite hown
    | done hknows hlearns => exact .done hknows hlearns
  | false =>
    obtain ⟨hknows, hlearns, hmeets⟩ := hp
    refine ⟨hknows, hlearns, fun j hj => ?_⟩
    cases hmeets j hj with
    | ahead hmem haddr =>
      rcases List.mem_cons.mp hmem with rfl | hmem
      · exact hmeet j hj haddr
      · exact .ahead hmem haddr
    | done hknows => exact .done hknows

theorem not_isDown (hlayout : Layout net addr hub pairs) (hj : (s.phase j).isUp)
    (haddr : (node.serverAddr, node.nodeGateway) = net.pair addr j) : ¬ IsDown net s node := by
  intro hdown
  obtain ⟨hserver, hport⟩ := Prod.mk.inj haddr
  have hsite := hlayout.site j
  rw [← hserver, ← hport] at hsite
  have hgone := hdown j hsite
  rw [hj] at hgone
  contradiction

theorem Progress.skip (hlayout : Layout net addr hub pairs) (hhub : (s.phase hub).isUp)
    (hp : Progress net addr hub s i (.starting initial none (node :: rest)))
    (hdown : IsDown net s node ∨ isMyIp (net.own i) node.serverAddr) :
    Progress net addr hub s i (.starting initial none rest) := by
  refine hp.next (fun hsite hown => ?_) fun j hj haddr => ?_
  · rcases hdown with hdown | hmine
    · have hgone := hdown hub hsite
      rw [hhub] at hgone
      contradiction
    · rw [hown] at hmine
      contradiction
  · rcases hdown with hdown | hmine
    · exact absurd hdown (not_isDown hlayout hj.1 haddr)
    · rw [(Prod.mk.inj haddr).1, hlayout.other i j (Ne.symm hj.2.1)] at hmine
      contradiction

theorem Progress.finished (hp : Progress net addr hub s i (.starting false none [])) :
    Knows net addr s hub i ∧ Learns net addr hub s i [] ∧
      ∀ j, Others hub s i j → Knows net addr s j i := by
  obtain ⟨hknows, hlearns, hmeets⟩ := hp
  refine ⟨hknows, hlearns, fun j hj => ?_⟩
  cases hmeets j hj with
  | ahead hmem => exact absurd hmem List.not_mem_nil
  | done hknows => exact hknows

-- ---------------------------------------------------------------------------
-- The phase of a node that starts
-- ---------------------------------------------------------------------------

theorem Starts.between (h : ∀ node ∈ rest, DottedQuad node.serverAddr)
    (hp : Progress net addr hub s i (.starting initial none rest)) :
    Starts net addr hub pairs s i (.starting initial none rest) where
  nodes := h
  told := by simp [Phase.pairs]
  visit := by simp [Phase.visit]
  progress := hp

theorem Starts.tail {visit : Option (Visit ι)} {rest : List Node}
    (hs : Starts net addr hub pairs s i (.starting initial visit (node :: rest))) :
    ∀ node ∈ rest, DottedQuad node.serverAddr := by
  intro other hother
  refine hs.nodes other ?_
  simp [Phase.nodes, hother]

theorem Starts.behind {visit : Option (Visit ι)} {rest : List Node}
    (hs : Starts net addr hub pairs s i (.starting initial visit rest)) :
    ∀ node ∈ rest, DottedQuad node.serverAddr :=
  fun _ hnode => hs.nodes _ (List.mem_append_right _ hnode)

theorem Starts.go (hs : Starts net addr hub pairs s i (.starting initial (some v) rest)) (wire : Wire)
    (htold : ∀ p ∈ wire.pairs (net.host i), DottedQuad p.1 ∧ p.key ∈ pairs)
    (hearly : wire.isEarly → v.wire.isEarly)
    (hgreeted : ∀ reply, wire = .helloReply reply → (s.phase v.peer).isUp →
      helloAccepted reply = some true)
    (hhub : v.peer = hub → AtHub net addr hub s i v.wire → AtHub net addr hub s i wire)
    (hmeet : v.wire.isEarly → (s.phase v.peer).isUp → wire.isEarly ∨ Knows net addr s v.peer i) :
    Starts net addr hub pairs s i (.starting initial (some { v with wire }) rest) := by
  have hold := hs.visit v rfl
  refine ⟨hs.nodes, htold, ?_, hs.progress.go rfl hhub hmeet⟩
  rintro w hw
  cases hw
  exact ⟨hold.site, hold.connected, fun h hup => hold.cell (hearly h) hup, hgreeted⟩

theorem Starts.past (hs : Starts net addr hub pairs s i (.starting initial (some v) rest)) (wire : Wire)
    (hbefore : v.wire.isEarly = false) (hafter : wire.isEarly = false)
    (htold : ∀ p ∈ wire.pairs (net.host i), DottedQuad p.1 ∧ p.key ∈ pairs)
    (hhub : v.peer = hub → AtHub net addr hub s i v.wire → AtHub net addr hub s i wire) :
    Starts net addr hub pairs s i (.starting initial (some { v with wire }) rest) := by
  refine hs.go wire htold (fun hearly => ?_) (fun reply hreply => ?_) hhub fun hearly => ?_
  · rw [hafter] at hearly
    contradiction
  · rw [hreply] at hafter
    contradiction
  · rw [hbefore] at hearly
    contradiction

theorem Inv.starts_of (hs : Inv net addr hub pairs s) (h : s.phase i = .starting a b c) :
    Starts net addr hub pairs s i (.starting a b c) := by
  have hi : (s.phase i).isStarting := by
    rw [h]
    rfl
  have hold := hs.starts i hi
  rwa [h] at hold

theorem Inv.setCell (hs : Inv net addr hub pairs s) (h : ∀ j, (s.phase j).visit = none) (cell : ι → Bytes) :
    Inv net addr hub pairs { s with cell } := by
  have hlater : Later s { s with cell } := ⟨fun _ => List.Subset.refl _, fun _ hj => hj⟩
  refine ⟨hs.neat, hs.hubUp, hlater.meshed hs.mesh, hs.single, fun j hj => ?_⟩
  have hold := hs.starts j hj
  exact ⟨hold.nodes, hold.told, by simp [h j], hlater.progress hold.progress⟩

-- ---------------------------------------------------------------------------
-- Changes of the state
-- ---------------------------------------------------------------------------

variable [DecidableEq ι]

theorem later_setPhase (h : phase.isUp = false) : Later s (s.setPhase i phase) where
  grows _ := List.Subset.refl _
  up j hj := by
    by_cases hji : j = i
    · subst hji
      simp [State.setPhase, h] at hj
    · simpa [State.setPhase, hji] using hj

theorem Inv.setPhase (hs : Inv net addr hub pairs s) (hi : (s.phase i).isUp = false)
    (hsingle : ∀ j, (s.phase j).isStarting → j = i) (hup : phase.isUp = false)
    (hstart : Starts net addr hub pairs (s.setPhase i phase) i phase) :
    Inv net addr hub pairs (s.setPhase i phase) := by
  have honly : ∀ j, ((s.setPhase i phase).phase j).isStarting → j = i := by
    intro j hj
    by_contra hne
    exact hne (hsingle j (by simpa [State.setPhase, hne] using hj))
  have hne : hub ≠ i := by
    rintro rfl
    simp [hs.hubUp] at hi
  refine ⟨hs.neat, ?_, (later_setPhase hup).meshed hs.mesh, ?_, ?_⟩
  · simpa [State.setPhase, hne] using hs.hubUp
  · exact fun j k hj hk => (honly j hj).trans (honly k hk).symm
  · intro j hj
    obtain rfl := honly j hj
    simpa [State.setPhase] using hstart

theorem later_setNodes (h : keys (s.nodes i) ⊆ keys nodes) : Later s (s.setNodes i nodes) where
  grows j := by
    by_cases hji : j = i
    · subst hji
      simpa [State.setNodes] using h
    · simp [State.setNodes, hji]
  up _ hj := hj

theorem Inv.setNodes (hs : Inv net addr hub pairs s) (hneat : Neat pairs nodes)
    (h : keys (s.nodes i) ⊆ keys nodes) : Inv net addr hub pairs (s.setNodes i nodes) where
  neat := (Function.forall_update_iff _ fun _ => Neat pairs).mpr ⟨hneat, fun j _ => hs.neat j⟩
  hubUp := hs.hubUp
  mesh := (later_setNodes h).meshed hs.mesh
  single := hs.single
  starts j hj := (later_setNodes h).starts rfl (hs.starts j hj)

theorem Inv.forget (hs : Inv net addr hub pairs s) (h : s.phase i = .starting false none rest)
    (hneat : Neat pairs nodes)
    (hkeep : ∀ j, Others hub s i j → Knows net addr s i j → (net.pair addr j).key ∈ keys nodes) :
    Inv net addr hub pairs (s.setNodes i nodes) := by
  have hknows (j k : ι) (hj : (s.phase j).isUp) (hk : Knows net addr s j k) :
      Knows net addr (s.setNodes i nodes) j k := by
    have hne : j ≠ i := by
      rintro rfl
      rw [h] at hj
      contradiction
    simpa [Knows, State.setNodes, hne] using hk
  refine ⟨(Function.forall_update_iff _ fun _ => Neat pairs).mpr ⟨hneat, fun j _ => hs.neat j⟩,
    hs.hubUp, fun j k hj hk => hknows j k hj (hs.mesh j k hj hk), hs.single, fun j hj => ?_⟩
  have hi : (s.phase i).isStarting := by
    rw [h]
    rfl
  obtain rfl := hs.single j i hj hi
  have hold := hs.starts j hj
  refine ⟨hold.nodes, hold.told, by simp [h, Phase.visit], ?_⟩
  have hprogress := hold.progress
  simp only [phase_setNodes, h] at hprogress ⊢
  obtain ⟨hhub, hlearns, hmeets⟩ := hprogress
  refine ⟨hknows hub j hs.hubUp hhub, fun k hk => ?_, fun k hk => ?_⟩
  · rcases hlearns k hk with hold | htold
    · refine .inl ?_
      simpa [Knows, State.setNodes] using hkeep k hk hold
    · exact absurd htold List.not_mem_nil
  · cases hmeets k hk with
    | ahead hmem haddr => exact .ahead hmem haddr
    | done hknow => exact .done (hknows k j hk.1 hknow)

theorem Inv.advance (hs : Inv net addr hub pairs s) (h : s.phase i = .starting a b c)
    (hstart : Starts net addr hub pairs s i (.starting initial visit rest)) :
    Inv net addr hub pairs (s.setPhase i (.starting initial visit rest)) := by
  have hi : (s.phase i).isStarting := by
    rw [h]
    rfl
  refine hs.setPhase (by rw [h]; rfl) (fun j hj => hs.single j i hj hi) rfl ?_
  exact (later_setPhase rfl).starts rfl hstart

theorem Inv.drop (hlayout : Layout net addr hub pairs) (hs : Inv net addr hub pairs s)
    (h : s.phase i = .starting initial visit before) (hquad : DottedQuad node.serverAddr)
    (hdown : IsDown net s node)
    (hstart : Starts net addr hub pairs s i (.starting initial none rest)) (io : Db.Calls) :
    Inv net addr hub pairs (s.drop net i initial node rest io) := by
  have hbetween := hs.advance h hstart
  unfold State.drop
  dsimp only
  split
  · exact hbetween
  rename_i hlocal
  rw [Bool.not_eq_true] at hlocal
  subst hlocal
  rcases removeNode_cases hquad node.nodeGateway (net.host i).sqlite io (s.nodes i) with hdb | hdb
  · rw [nodes_setPhase, hdb]
    dsimp only
    rw [← nodes_setPhase s i (.starting false none rest), setNodes_self]
    exact hbetween
  · rw [nodes_setPhase, hdb]
    have hstarting : (s.setPhase i (.starting false none rest)).phase i = .starting false none rest := by
      simp [State.setPhase]
    refine hbetween.forget hstarting ((hs.neat i).filter _) ?_
    intro j hj hknows
    refine (mem_keys_filter (p := nodePair node)).mpr ⟨hknows, fun hsame => ?_⟩
    have hpair := Pair.key_injective hsame
    exact not_isDown hlayout ((later_setPhase rfl).up j hj.1) hpair.symm hdown

-- ---------------------------------------------------------------------------
-- Answers
-- ---------------------------------------------------------------------------

theorem Inv.welcomed (hlayout : Layout net addr hub pairs) (hs : Inv net addr hub pairs s)
    (h : s.phase i = .starting initial (some v) rest) (hwire : v.wire = .hello) :
    Inv net addr hub pairs (s.setPhase i (.starting initial
      (some { v with wire := .helloReply (serverProtoResponse true (net.host v.peer).version) }) rest)) := by
  refine hs.advance h ((hs.starts_of h).go _ (by simp [Wire.pairs]) (fun _ => by rw [hwire]; rfl) ?_ ?_ ?_)
  · rintro reply hreply -
    cases hreply
    exact helloAccepted_version (hlayout.ascii v.peer)
  · exact fun _ _ => .early rfl
  · exact fun _ _ => .inl rfl

theorem Inv.enrolled (hlayout : Layout net addr hub pairs) (hs : Inv net addr hub pairs s)
    (h : s.phase i = .starting initial (some v) rest) :
    Inv net addr hub pairs ((s.setNodes v.peer (insertPair (s.nodes v.peer) (net.pair addr i))).setPhase i
      (.starting initial (some { v with wire := .addReply }) rest)) := by
  have hquad : DottedQuad (net.pair addr i).1 := ⟨addr i, rfl⟩
  have hmem (k : Bytes × Int) : k ∈ keys (insertPair (s.nodes v.peer) (net.pair addr i)) ↔
      k ∈ keys (s.nodes v.peer) ∨ k = (net.pair addr i).key :=
    mem_keys_insertPair (check_of_dottedQuad hquad _)
  have hmore := hs.setNodes ((hs.neat v.peer).insertPair hquad (hlayout.mem i))
    fun k hk => (hmem k).mpr (.inl hk)
  have hknows : Knows net addr
      (s.setNodes v.peer (insertPair (s.nodes v.peer) (net.pair addr i))) v.peer i := by
    simp [Knows, State.setNodes, hmem]
  refine hmore.advance h ((hmore.starts_of h).go .addReply (by simp [Wire.pairs]) ?_ ?_ ?_ ?_)
  · intro hearly
    contradiction
  · intro reply hreply
    contradiction
  · exact fun hpeer _ => .added (hpeer ▸ hknows)
  · exact fun _ _ => .inr hknows

theorem Inv.informed (hlayout : Layout net addr hub pairs) (hs : Inv net addr hub pairs s)
    (h : s.phase i = .starting initial (some v) rest) (hwire : v.wire = .list)
    (hio : io.opened ∧ io.connected ∧ io.configured ∧ io.calls = .ok ∧ Works io.nodes) :
    ∃ response, handleGetNodes (net.host v.peer) io ⟨false, s.nodes v.peer⟩ =
        .done 0 response ⟨false, s.nodes v.peer⟩ ∧
      Inv net addr hub pairs (s.setPhase i
        (.starting initial (some { v with wire := .listReply response }) rest)) := by
  obtain ⟨hopened, hconnected, hconfigured, -, hnodes⟩ := hio
  obtain ⟨response, hdone, hkeys⟩ := (hs.neat v.peer).pairs_getNodes hlayout.card hopened hconnected
    hconfigured hnodes (net.host v.peer) (net.host i)
  have htold := pairs_getNodes (hs.neat v.peer).tidy hdone (net.host i)
  refine ⟨response, hdone, hs.advance h ((hs.starts_of h).past _ (by rw [hwire]; rfl) rfl
    (fun p hp => ⟨(htold p hp).2, (hs.neat v.peer).known _ (htold p hp).1⟩) fun hpeer hat => ?_)⟩
  have hknows : Knows net addr s hub i := by
    rw [hwire] at hat
    cases hat with
    | early hearly => contradiction
    | list hknows | told hknows => exact hknows
  refine .told hknows fun j hj => .inr ?_
  have hlisted : (net.pair addr j).key ∈ keys (s.nodes hub) :=
    hs.mesh hub j hs.hubUp ⟨hj.1, hj.2.2, hj.2.2⟩
  rw [← hpeer, ← hkeys] at hlisted
  obtain ⟨p, hp, hsame⟩ := List.mem_map.mp hlisted
  rwa [← Pair.key_injective hsame]

theorem Inv.served (hlayout : Layout net addr hub pairs) (hs : Inv net addr hub pairs s)
    (h : s.phase i = .starting initial (some v) rest) (hup : (s.phase v.peer).isUp)
    (hrequest : v.wire.request (net.port i) = some request)
    (hio : io.opened ∧ io.connected ∧ io.configured ∧ io.calls = .ok ∧ Works io.nodes) :
    ∃ result response db, nodeServerCallback (net.host v.peer) io (s.cell v.peer)
        (payload request ++ behind) ⟨false, s.nodes v.peer⟩ = .done result response db ∧
      Inv net addr hub pairs ((s.setNodes v.peer db.nodes).setPhase i
        (.starting initial (some { v with wire := v.wire.answered response }) rest)) := by
  cases hwire : v.wire with
  | hello =>
    rw [hwire] at hrequest
    cases hrequest
    refine ⟨_, _, _, Session.handled_hello io _ _ behind, ?_⟩
    dsimp only
    rw [setNodes_self]
    exact hs.welcomed hlayout h hwire
  | add =>
    rw [hwire] at hrequest
    cases hrequest
    have hcell := ((hs.starts_of h).visit v rfl).cell (by rw [hwire]; rfl) hup
    obtain ⟨hopened, hconnected, hconfigured, hcalls, -⟩ := hio
    obtain ⟨response, hdone⟩ := handleAddNode_works hopened hconnected hconfigured hcalls ⟨addr i, rfl⟩
      (net.port i) (net.host v.peer) (s.nodes v.peer)
    refine ⟨0, response, ⟨false, insertPair (s.nodes v.peer) (net.pair addr i)⟩, ?_,
      hs.enrolled hlayout h⟩
    rw [hcell, Session.handled_addNode]
    exact hdone
  | list =>
    rw [hwire] at hrequest
    cases hrequest
    obtain ⟨response, hdone, hinv⟩ := hs.informed hlayout h hwire hio
    refine ⟨0, response, ⟨false, s.nodes v.peer⟩,
      (Session.handled_getNodes io _ _ behind).trans hdone, ?_⟩
    dsimp only
    rw [setNodes_self]
    exact hinv
  | _ =>
    rw [hwire] at hrequest
    contradiction

-- ---------------------------------------------------------------------------
-- Steps
-- ---------------------------------------------------------------------------

theorem Halts.ne_hub (hlayout : Layout net addr hub pairs) (hs : Inv net addr hub pairs s)
    (hc : Calm net hub s l) (h : Halts net s l i) : i ≠ hub := by
  have hstarting {a b c} (h : s.phase i = .starting a b c) : i ≠ hub := by
    rintro rfl
    have hup := hs.hubUp
    rw [h] at hup
    contradiction
  cases h with
  | stop => exact hc
  | lost h | greeted h | learned h | loaded h => exact hstarting h
  | served h hup hrequest hends =>
    obtain ⟨_, _, _, hdone, -⟩ := hs.served hlayout h hup hrequest hc
    exact absurd hdone (hends _ _ _)

theorem isUp_cut (b : ι) (phase : Phase ι) : (phase.cut b).isUp = phase.isUp := by
  unfold Phase.cut
  split <;> rfl

theorem later_halt (s : State ι) (i : ι) : Later s (s.halt i) where
  grows _ := List.Subset.refl _
  up j hj := by
    unfold State.halt at hj
    dsimp only at hj
    split at hj
    · contradiction
    · rwa [isUp_cut] at hj

theorem Starts.cut (hs : Starts net addr hub pairs s j phase) (i : ι) :
    Starts net addr hub pairs (s.halt i) j (phase.cut i) := by
  have hlater := (later_halt s i).starts rfl hs
  unfold Phase.cut
  split
  case h_2 => exact hlater
  case h_1 initial v rest =>
    have hold := hlater.visit v rfl
    refine ⟨hlater.nodes, hlater.told, ?_, hlater.progress.go rfl (fun _ h => h) fun h _ => .inl h⟩
    rintro w hw
    cases hw
    refine ⟨hold.site, fun hup => ?_, hold.cell, hold.greeted⟩
    have hne : v.peer ≠ i := by
      rintro rfl
      simp [State.halt, Phase.isUp] at hup
    simp [hold.connected hup, hne]

theorem Inv.halt (hs : Inv net addr hub pairs s) (hne : i ≠ hub) : Inv net addr hub pairs (s.halt i) := by
  have hstarting : ∀ j, ((s.halt i).phase j).isStarting → j ≠ i ∧ (s.phase j).isStarting := by
    intro j hj
    unfold State.halt at hj
    dsimp only at hj
    split at hj
    · contradiction
    · exact ⟨‹_›, by rwa [isStarting_cut] at hj⟩
  refine ⟨hs.neat, ?_, (later_halt s i).meshed hs.mesh,
    fun j k hj hk => hs.single j k (hstarting j hj).2 (hstarting k hk).2, fun j hj => ?_⟩
  · simp [State.halt, hne.symm, isUp_cut, hs.hubUp]
  · obtain ⟨hji, hj⟩ := hstarting j hj
    have hphase : (s.halt i).phase j = (s.phase j).cut i := by simp [State.halt, hji]
    rw [hphase]
    exact (hs.starts j hj).cut i

theorem Inv.boot (hlayout : Layout net addr hub pairs) (hs : Inv net addr hub pairs s)
    (h : s.phase i = .down) (hnone : ∀ j, (s.phase j).isStarting = false) :
    Inv net addr hub pairs (s.setPhase i (.starting true none initNodes)) := by
  have hne : i ≠ hub := by
    rintro rfl
    have hup := hs.hubUp
    rw [h] at hup
    contradiction
  obtain ⟨node, hnode, hsite, hown⟩ := hlayout.initial
  refine hs.setPhase (by rw [h]; rfl) (fun j hj => ?_) rfl (.between dottedQuad_initNodes ?_)
  · rw [hnone j] at hj
    contradiction
  · exact .ahead hnode hsite (hown i hne)

theorem Inv.call (hlayout : Layout net addr hub pairs) (hs : Inv net addr hub pairs s)
    (h : s.phase i = .starting initial none (node :: rest))
    (hsite : net.site node.serverAddr node.nodeGateway = some b) :
    Inv net addr hub pairs
      { s.setPhase i (.starting initial (some ⟨node, b, true, .hello⟩) rest) with
        cell := Function.update s.cell b (inetNtoa (net.seen i b)) } := by
  have hi : (s.phase i).isStarting := by
    rw [h]
    rfl
  have hnone : ∀ j, (s.phase j).visit = none := by
    intro j
    cases hj : s.phase j with
    | starting a v c =>
      have hsame := hs.single j i (by rw [hj]; rfl) hi
      rw [hsame, h] at hj
      cases hj
      rfl
    | _ => rfl
  have hcell := hs.setCell hnone (Function.update s.cell b (inetNtoa (net.seen i b)))
  have hstart := hcell.starts_of h
  refine hcell.advance h ⟨hstart.nodes, by simp [Phase.pairs, Wire.pairs], ?_, ?_⟩
  · rintro v hv
    cases hv
    exact ⟨hsite, fun _ => rfl, fun _ _ => by simp [hlayout.seen], fun _ hwire => by contradiction⟩
  · refine hstart.progress.next (fun hhub _ => ?_) fun j hj haddr => ?_
    · rw [hsite] at hhub
      exact .here (Option.some.inj hhub) (.early rfl)
    · have hj' := hlayout.site j
      obtain ⟨hserver, hport⟩ := Prod.mk.inj haddr
      rw [← hserver, ← hport, hsite] at hj'
      exact .early (Option.some.inj hj') rfl

theorem Inv.learned (hlayout : Layout net addr hub pairs) (hs : Inv net addr hub pairs s)
    (h : s.phase i = .starting initial (some v) rest) (hwire : v.wire = .learning nodes j (left + 1))
    (hdb : registerNode (net.host i) (net.own i) .ok (arrayGetObject nodes j) ⟨false, s.nodes i⟩ = some db) :
    Inv net addr hub pairs ((s.setNodes i db.nodes).setPhase i
      (.starting initial (some { v with wire := .learning nodes (j + 1) left }) rest)) := by
  have htold := (hs.starts_of h).told
  have hpairs : v.wire.pairs (net.host i) = (entry (net.host i) (arrayGetObject nodes j)).toList ++
      (Wire.learning nodes (j + 1) left).pairs (net.host i) := by
    rw [hwire, pairs_learning]
  simp only [Phase.pairs, hpairs, List.mem_append, Option.mem_toList] at htold
  obtain ⟨p, hentry, -⟩ := registerNode_cases (fun p hp => (htold p (.inl hp)).1) hdb
  obtain ⟨hquad, hp⟩ := htold p (.inl hentry)
  rw [registerNode_entry hentry (.inr (plain_of_dottedQuad hquad p.2))] at hdb
  cases hdb
  dsimp only
  have hmore := hs.setNodes ((hs.neat i).learn (net.own i) hquad hp)
    ((prefix_learn (net.own i) (s.nodes i) p).sublist.map key).subset
  refine hmore.advance h ((hmore.starts_of h).past _ (by rw [hwire]; rfl) rfl
    (fun q hq => htold q (.inr hq)) fun _ hat => ?_)
  rw [hwire] at hat
  cases hat with
  | early hearly => contradiction
  | told hknows hlearns =>
    refine .told hknows fun k hk => ?_
    rw [← hwire, hpairs] at hlearns
    rcases hlearns k hk with hknown | hcoming
    · exact .inl hknown
    rcases List.mem_append.mp hcoming with hnow | hlater
    · rw [Option.mem_toList, hentry] at hnow
      cases hnow
      refine .inl ?_
      have hother := hlayout.other i k hk.2.1.symm
      have hlearned : (net.pair addr k).key ∈ keys (learn (net.own i) (s.nodes i) (net.pair addr k)) :=
        mem_keys_learn.mpr (.inr ⟨⟨hother, check_of_dottedQuad hquad _⟩, rfl⟩)
      simpa [Knows, State.setNodes] using hlearned
    · exact .inr hlater

theorem Inv.loaded (hlayout : Layout net addr hub pairs) (hs : Inv net addr hub pairs s)
    (h : s.phase i = .starting true none []) (hio : Works io)
    (hnodes : Db.getAllActiveNodes (net.host i).sqlite io ⟨false, s.nodes i⟩
      (UInt8.ofNat maxActiveNodes) = some nodes) :
    Inv net addr hub pairs (s.setPhase i (.starting false none nodes)) := by
  have hneat := hs.neat i
  rw [hneat.load hlayout.card hio] at hnodes
  cases hnodes
  have hgreets : Greets net addr hub s i none [] := (hs.starts_of h).progress
  obtain ⟨hknows, hlearns⟩ : Knows net addr s hub i ∧ Learns net addr hub s i [] := by
    cases hgreets with
    | ahead hmem => exact absurd hmem List.not_mem_nil
    | done hknows hlearns => exact ⟨hknows, hlearns⟩
  refine hs.advance h (.between (fun node hnode => ?_) ⟨hknows, hlearns, fun j hj => ?_⟩)
  · obtain ⟨r, hr, rfl⟩ := List.mem_map.mp hnode
    obtain ⟨hquad, -⟩ := hneat.tidy r hr
    rwa [toNode_serverAddr hquad]
  · obtain ⟨r, hr, hsame⟩ := mem_keys_iff.mp ((hlearns j hj).resolve_right List.not_mem_nil)
    have hpair : (nodePair r.toNode).key = (net.pair addr j).key := by
      rw [key_nodePair hneat.tidy hr, hsame]
    exact .ahead (List.mem_map_of_mem hr) (Pair.key_injective hpair)

theorem Inv.finish (hs : Inv net addr hub pairs s) (h : s.phase i = .starting false none []) :
    Inv net addr hub pairs (s.setPhase i .up) := by
  obtain ⟨hhub, hlearns, hmeets⟩ := (hs.starts_of h).progress.finished
  have hi : (s.phase i).isStarting := by
    rw [h]
    rfl
  have hup (j : ι) (hne : j ≠ i) (hj : ((s.setPhase i .up).phase j).isUp) : (s.phase j).isUp := by
    simpa [State.setPhase, hne] using hj
  have hstarting (j : ι) (hj : ((s.setPhase i .up).phase j).isStarting) : False := by
    by_cases hne : j = i
    · subst hne
      simp [State.setPhase, Phase.isStarting] at hj
    · exact hne (hs.single j i (by simpa [State.setPhase, hne] using hj) hi)
  refine ⟨hs.neat, ?_, fun j k hj hk => ?_, fun j _ hj => (hstarting j hj).elim,
    fun j hj => (hstarting j hj).elim⟩
  · by_cases hne : hub = i
    · simp [State.setPhase, hne, Phase.isUp]
    · simpa [State.setPhase, hne] using hs.hubUp
  · by_cases hji : j = i
    · subst hji
      exact (hlearns k ⟨hup k hk.2.1 hk.1, hk.2⟩).resolve_right List.not_mem_nil
    · by_cases hki : k = i
      · subst hki
        by_cases hjhub : j = hub
        · exact hjhub ▸ hhub
        · exact hmeets j ⟨hup j hji hj, hji, hjhub⟩
      · exact hs.mesh j k (hup j hji hj) ⟨hup k hki hk.1, hk.2⟩

theorem Inv.lost (hs : Inv net addr hub pairs s) (h : s.phase i = .starting initial (some v) rest)
    (hwire : v.wire.lost = some wire) (hgone : (s.phase v.peer).isUp = false) :
    Inv net addr hub pairs
      (s.setPhase i (.starting initial (some { v with connected := false, wire }) rest)) := by
  have hstart := hs.starts_of h
  have hold := hstart.visit v rfl
  have hno {P : Prop} (hup : (s.phase v.peer).isUp) : P := by
    rw [hgone] at hup
    contradiction
  refine hs.advance h ⟨hstart.nodes, ?_, ?_, hstart.progress.go rfl ?_ ?_⟩
  · simp [Phase.pairs, pairs_lost hwire]
  · rintro w hw
    cases hw
    exact ⟨hold.site, hno, fun _ => hno, fun _ _ => hno⟩
  · exact fun hpeer _ => hno (hpeer ▸ hs.hubUp)
  · exact fun _ => hno

theorem Inv.accepted (hs : Inv net addr hub pairs s) (h : s.phase i = .starting initial (some v) rest)
    (hwire : v.wire = .helloReply reply) :
    Inv net addr hub pairs (s.setPhase i (.starting initial (some { v with wire := .add }) rest)) := by
  refine hs.advance h ((hs.starts_of h).go .add (by simp [Wire.pairs]) ?_ ?_ ?_ ?_)
  · exact fun _ => by rw [hwire]; rfl
  · intro reply hreply
    contradiction
  · exact fun _ _ => .early rfl
  · exact fun _ _ => .inl rfl

theorem Inv.refused (hlayout : Layout net addr hub pairs) (hs : Inv net addr hub pairs s)
    (h : s.phase i = .starting initial (some v) rest) (hwire : v.wire = .helloReply reply)
    (hrefused : helloAccepted reply = some false) (io : Db.Calls) :
    Inv net addr hub pairs (s.drop net i initial v.node rest io) := by
  have hstart := hs.starts_of h
  have hold := hstart.visit v rfl
  have hgone : (s.phase v.peer).isUp = false := by
    by_contra hup
    have haccepted := hold.greeted reply hwire (by simpa using hup)
    rw [hrefused] at haccepted
    contradiction
  have hdown : IsDown net s v.node := by
    intro b hb
    rw [hold.site] at hb
    exact Option.some.inj hb ▸ hgone
  refine hs.drop hlayout h (hstart.nodes v.node List.mem_cons_self) hdown
    (.between hstart.behind (hstart.progress.leave (fun hpeer _ => ?_) fun _ => hgone)) io
  have hup := hs.hubUp
  rw [← hpeer, hgone] at hup
  contradiction

theorem Inv.added (hs : Inv net addr hub pairs s) (h : s.phase i = .starting initial (some v) rest)
    (hwire : v.wire = .addReply) :
    Inv net addr hub pairs (s.setPhase i (.starting initial (some { v with wire := .list }) rest)) := by
  refine hs.advance h ((hs.starts_of h).past .list (by rw [hwire]; rfl) rfl (by simp [Wire.pairs])
    fun _ hat => ?_)
  rw [hwire] at hat
  cases hat with
  | early hearly => contradiction
  | added hknows | told hknows => exact .list hknows

theorem Inv.listed (hs : Inv net addr hub pairs s) (h : s.phase i = .starting initial (some v) rest)
    (hwire : v.wire = .listReply reply) :
    Inv net addr hub pairs (s.setPhase i (.starting initial (some { v with
      wire := .learning (listedNodes reply) 0 (arrayGetCount (listedNodes reply) % 256) }) rest)) := by
  have hstart := hs.starts_of h
  have htold := hstart.told
  simp only [Phase.pairs, hwire, ← pairs_listed] at htold
  refine hs.advance h (hstart.past _ (by rw [hwire]; rfl) rfl htold fun _ hat => ?_)
  rw [hwire] at hat
  cases hat with
  | early hearly => contradiction
  | told hknows hlearns =>
    rw [← pairs_listed] at hlearns
    exact .told hknows hlearns

theorem Inv.left (hs : Inv net addr hub pairs s) (h : s.phase i = .starting initial (some v) rest)
    (hwire : v.wire = .learning nodes j 0) :
    Inv net addr hub pairs (s.setPhase i (.starting initial none rest)) := by
  have hstart := hs.starts_of h
  refine hs.advance h (.between hstart.behind (hstart.progress.leave (fun _ hat => ?_) fun hearly => ?_))
  · rw [hwire] at hat
    cases hat with
    | early hearly => contradiction
    | told hknows hlearns => exact ⟨hknows, hlearns⟩
  · rw [hwire] at hearly
    contradiction

theorem Does.inv (hlayout : Layout net addr hub pairs) (hs : Inv net addr hub pairs s)
    (hc : Calm net hub s l) (h : Does net s l t) : Inv net addr hub pairs t := by
  cases h with
  | boot h => exact hs.boot hlayout h hc
  | skip h hown =>
    have hstart := hs.starts_of h
    exact hs.advance h (.between hstart.tail (hstart.progress.skip hlayout hs.hubUp (.inr hown)))
  | @miss i initial node rest io h hown =>
    have hstart := hs.starts_of h
    have hdown : IsDown net s node := hc node (by rw [h]; rfl)
    exact hs.drop hlayout h (hstart.nodes node List.mem_cons_self) hdown
      (.between hstart.tail (hstart.progress.skip hlayout hs.hubUp (.inl hdown))) io
  | call h hown hsite => exact hs.call hlayout h hsite
  | served h hconnected hup hrequest hdone =>
    obtain ⟨_, _, _, hdone', hinv⟩ := hs.served hlayout h hup hrequest hc
    rw [hdone] at hdone'
    cases hdone'
    exact hinv
  | lost h hwire => exact hs.lost h hwire (hc _ (by rw [h]; rfl))
  | accepted h hwire => exact hs.accepted h hwire
  | refused h hwire hrefused => exact hs.refused hlayout h hwire hrefused _
  | added h hwire => exact hs.added h hwire
  | listed h hwire => exact hs.listed h hwire
  | learned h hwire hdb => exact hs.learned hlayout h hwire (hc ▸ hdb)
  | left h hwire => exact hs.left h hwire
  | loaded h hnodes => exact hs.loaded hlayout h hc hnodes
  | finish h => exact hs.finish h
  | halt h => exact hs.halt (h.ne_hub hlayout hs hc)

-- ---------------------------------------------------------------------------
-- Runs
-- ---------------------------------------------------------------------------

def alone (hub : ι) (nodes : ι → List Db.Row) (cell : ι → Bytes) : State ι :=
  ⟨nodes, cell, fun i => if i = hub then .up else .down⟩

theorem inv_alone {nodes : ι → List Db.Row} (hneat : ∀ i, Neat pairs (nodes i)) (cell : ι → Bytes) :
    Inv net addr hub pairs (alone hub nodes cell) := by
  have hphase (i : ι) : ((alone hub nodes cell).phase i).isStarting = false := by
    unfold alone
    dsimp only
    split <;> rfl
  refine ⟨hneat, by simp [alone, Phase.isUp], ?_, fun i _ hi => ?_, fun i hi => ?_⟩
  · rintro i j - ⟨hj, -, hne⟩
    simp [alone, hne, Phase.isUp] at hj
  · rw [hphase] at hi
    contradiction
  · rw [hphase] at hi
    contradiction

instance [Fintype ι] (net : Setting ι) (hub : ι) (s : State ι) :
    (l : Label ι) → Decidable (Calm net hub s l)
  | .boot _ => inferInstanceAs (Decidable (∀ _, _))
  | .miss i _ => inferInstanceAs (Decidable (∀ node ∈ (s.phase i).nodes.head?, ∀ b ∈ net.site _ _, _))
  | .serve _ _ io => inferInstanceAs (Decidable (_ ∧ _ ∧ _ ∧ io.calls = .ok ∧ Works io.nodes))
  | .lose i _ => inferInstanceAs (Decidable (∀ v ∈ (s.phase i).visit, _))
  | .learn _ io => inferInstanceAs (Decidable (io = .ok))
  | .load _ io => inferInstanceAs (Decidable (Works io))
  | .stop i => inferInstanceAs (Decidable (i ≠ hub))
  | .skip _ | .call .. | .receive .. | .finish _ => isTrue trivial

def samplePairs : Finset (Bytes × Int) :=
  Finset.univ.image fun i => (sampleNetwork.pair sampleAddr i).key

theorem layout_sample : Layout sampleNetwork sampleAddr hubNode samplePairs where
  seen _ _ := rfl
  site := by decide +kernel
  other := by decide +kernel
  ascii := by decide +kernel
  initial := ⟨⟨bytes "172.17.0.1", 9060, Db.active⟩, by decide +kernel, by decide +kernel, by decide +kernel⟩
  mem i := Finset.mem_image_of_mem _ (Finset.mem_univ i)
  card := Finset.card_image_le.trans (by decide)

theorem neat_nil : Neat pairs [] where
  tidy := tidy_nil
  active _ hr := nomatch hr
  distinct := .nil
  known _ hk := nomatch hk

/-- One node starts after the other, and the third one visits the second one, too. -/
def inTurnLabels : List (Label (Fin 3)) :=
  greetLabels secondNode 1 ++ [.load secondNode .ok, .finish secondNode] ++ greetLabels thirdNode 2 ++
    [.load thirdNode .ok] ++ exchangeLabels thirdNode secondNode (fun _ => []) 1 ++ [.finish thirdNode]

def hubUp : State (Fin 3) := alone hubNode (fun _ => []) fun _ => []

/-- Where the third node has its turns before the second one is up, they end up
without knowing each other. -/
example : (run (step sampleNetwork) hubUp (greetLabels secondNode 1 ++ greetLabels thirdNode 2 ++
    [.load thirdNode .ok, .miss thirdNode .ok, .finish thirdNode, .load secondNode .ok, .finish secondNode])).map
    (fun t => [secondNode, thirdNode].map fun i => ((t.phase i).isUp, keys (t.nodes i))) =
      some [(true, []), (true, [])] := by
  decide +kernel

end GeoNS.Geonsp.Network
