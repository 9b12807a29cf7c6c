import GeoNS.Geonsp.Transfer

/-!
# A pass over the local database

`connectLocaldbNodeServers` loads the active nodes and has an exchange with
one after the other: a node that is not available is removed, and one that is
teaches the pairs it lists. The table at the end depends on the order.
-/

namespace GeoNS.Geonsp

open CString Parson Inet
open Ping (ExchangeIo plain_of_dottedQuad toNode_serverAddr)

structure PassIo where
  opened : Bool
  connected : Bool
  configured : Bool
  nodes : Db.NodeCalls
  visits : Nat → ExchangeIo

/-- All database calls go through; `peers` are what the nodes do at their turns. -/
def PassIo.ok (peers : Nat → Peer) : PassIo where
  opened := true
  connected := true
  configured := true
  nodes := .ok
  visits i := ⟨peers i, fun _ => .ok, .ok⟩

inductive Pass
  | done (result : UInt8) (db : Db.Database)
  | exit
  | fault
  deriving DecidableEq

section
variable (host : Host) (own : List Ipv4)

/-- `none` is a fault. -/
def visitNodes (visits : Nat → ExchangeIo) : (i : Nat) → List Node → Db.Database → Option Db.Database
  | _, [], db => some db
  | i, node :: rest, db =>
    let io := visits i
    let e := handleNodeInfoExchange host own io.inserts io.remove io.peer db node true
    match e.result with
    | none => none
    | some _ => visitNodes visits (i + 1) rest e.db

def connectLocaldbNodeServers (io : PassIo) (db : Db.Database) : Pass :=
  if !io.opened then .done 0 db
  else if !io.connected then .exit
  else if !io.configured then .fault
  else
    match Db.getAllActiveNodes host.sqlite io.nodes db (UInt8.ofNat maxActiveNodes) with
    | none => .done 0 db
    | some nodes =>
      match visitNodes host own io.visits 0 nodes db with
      | none => .fault
      | some db => .done 1 db

def loaded (nodes : List Db.Row) : List Db.Row :=
  (nodes.filter (·.status == Db.active)).take maxActiveNodes

variable (peers : Nat → Peer)

def Available (i : Nat) : Prop := isGeonsHostAvailable (peers i) = some true

def Spared (i : Nat) (r : Db.Row) : Prop := isMyIp own r.server ∨ Available peers i

/-- At its turn, the node is available and lists the pair. -/
def Lists (i : Nat) (r : Db.Row) (k : Bytes × Int) : Prop :=
  isMyIp own r.server = false ∧ Available peers i ∧
    ∃ p, some p ∈ entries host (peers i).nodes ∧ k = p.key

/-- Only dead nodes are gone, and only listed pairs have come. -/
structure Pruned (nodes after : List Db.Row) : Prop where
  outside : ∀ k ∈ keys nodes, k ∉ keys (loaded nodes) → k ∈ keys after
  spared : ∀ i r, (loaded nodes)[i]? = some r → Spared own peers i r → key r ∈ keys after
  dead : ∀ i r, (loaded nodes)[i]? = some r → ¬ Spared own peers i r → key r ∈ keys after →
    ∃ j > i, ∃ r', (loaded nodes)[j]? = some r' ∧ Lists host own peers j r' (key r)
  fresh : ∀ k ∈ keys after, k ∉ keys nodes →
    ∃ j r, (loaded nodes)[j]? = some r ∧ Lists host own peers j r k

/-- What a node answers at its turn hands no NULL on, and each pair it lists is
the node's own or has texts that are read as meant. -/
def CleanAnswer (i : Nat) : Prop :=
  isGeonsHostAvailable (peers i) ≠ none ∧
    (Available peers i → ∀ e ∈ entries host (peers i).nodes, ∃ p, e = some p ∧ Clean own p)

end

-- ---------------------------------------------------------------------------
-- One turn
-- ---------------------------------------------------------------------------

structure Turn (host : Host) (own : List Ipv4) (peers : Nat → Peer) (i : Nat) (r : Db.Row)
    (nodes after : List Db.Row) : Prop where
  kept : ∀ k ∈ keys nodes, (key r = k → Spared own peers i r) → k ∈ keys after
  fresh : ∀ k ∈ keys after, k ∈ keys nodes ∨ Lists host own peers i r k
  dead : ¬ Spared own peers i r → key r ∉ keys after

theorem mem_keys_filter {nodes : List Db.Row} {p : Pair} :
    k ∈ keys (nodes.filter (!·.isNode p.1 p.2.toNat)) ↔ k ∈ keys nodes ∧ k ≠ p.key := by
  have hnode (r : Db.Row) : (!r.isNode p.1 p.2.toNat) = true ↔ key r ≠ p.key := by
    rw [Bool.not_eq_true', ← Bool.not_eq_true, isNode_iff]
  simp only [mem_keys_iff, List.mem_filter, hnode]
  constructor
  · rintro ⟨r, ⟨hr, hne⟩, rfl⟩
    exact ⟨⟨r, hr, rfl⟩, hne⟩
  · rintro ⟨⟨r, hr, rfl⟩, hne⟩
    exact ⟨r, ⟨hr, hne⟩, rfl⟩

theorem exists_map_some {es : List (Option Pair)} {P : Pair → Prop}
    (h : ∀ e ∈ es, ∃ p, e = some p ∧ P p) :
    ∃ ps : List Pair, es = ps.map some ∧ ∀ p ∈ ps, P p := by
  induction es with
  | nil => exact ⟨[], rfl, by simp⟩
  | cons e es ih =>
    obtain ⟨⟨p, rfl, hp⟩, hrest⟩ := List.forall_mem_cons.mp h
    obtain ⟨ps, rfl, hps⟩ := ih hrest
    exact ⟨p :: ps, rfl, List.forall_mem_cons.mpr ⟨hp, hps⟩⟩

theorem exchange_turn (hr : key r = (nodePair r.toNode).key) (hquad : DottedQuad r.server)
    (hclean : isMyIp own r.server = false → CleanAnswer host own peers i) (nodes : List Db.Row) :
    ∃ e after, handleNodeInfoExchange host own (fun _ => .ok) .ok (peers i) ⟨false, nodes⟩ r.toNode
        true = e ∧ e.result ≠ none ∧ e.db = ⟨false, after⟩ ∧
      Turn host own peers i r nodes after := by
  have hserver : r.toNode.serverAddr = r.server := toNode_serverAddr hquad
  cases hown : isMyIp own r.server with
  | true =>
    refine ⟨_, nodes, handleNodeInfoExchange_own (hserver ▸ hown), by simp, rfl, ?_⟩
    exact ⟨fun k hk _ => hk, fun k hk => .inl hk, fun h => absurd (.inl hown) h⟩
  | false =>
    obtain ⟨hhello, hlist⟩ := hclean hown
    rw [← hserver] at hown
    cases havailable : isGeonsHostAvailable (peers i) with
    | none => contradiction
    | some available =>
      cases available with
      | true =>
        obtain ⟨ps, hps, hpure⟩ := exists_map_some (hlist havailable)
        refine ⟨_, _, handleNodeInfoExchange_available hown havailable
          (registerReply_entries hps hpure nodes), by simp, rfl, ?_, ?_, ?_⟩
        · exact fun k hk _ => mem_keys_learnAll ps |>.mpr (.inl hk)
        · intro k hk
          rcases (mem_keys_learnAll ps).mp hk with hk | ⟨p, hp, -, rfl⟩
          · exact .inl hk
          · refine .inr ⟨hserver ▸ hown, havailable, p, ?_, rfl⟩
            rw [hps]
            exact List.mem_map_of_mem hp
        · exact fun h => absurd (.inr havailable) h
      | false =>
        have hplain : Db.Plain r.toNode.serverAddr r.toNode.nodeGateway :=
          plain_of_dottedQuad (hserver ▸ hquad) _
        refine ⟨_, _, handleNodeInfoExchange_gone hown havailable hplain, by simp, rfl, ?_, ?_, ?_⟩
        · intro k hk hspared
          refine (mem_keys_filter (p := nodePair r.toNode)).mpr ⟨hk, fun hkey => ?_⟩
          rcases hspared (hr.trans hkey.symm) with h | h
          · rw [← hserver, hown] at h
            contradiction
          · rw [Available, havailable] at h
            contradiction
        · exact fun k hk => .inl ((mem_keys_filter (p := nodePair r.toNode)).mp hk).1
        · exact fun _ hk => ((mem_keys_filter (p := nodePair r.toNode)).mp hk).2 hr

-- ---------------------------------------------------------------------------
-- All turns
-- ---------------------------------------------------------------------------

structure Turns (host : Host) (own : List Ipv4) (peers : Nat → Peer) (i : Nat) (rows : List Db.Row)
    (nodes after : List Db.Row) : Prop where
  kept : ∀ k ∈ keys nodes,
    (∀ j r, rows[j]? = some r → key r = k → Spared own peers (i + j) r) → k ∈ keys after
  fresh : ∀ k ∈ keys after,
    k ∈ keys nodes ∨ ∃ j r, rows[j]? = some r ∧ Lists host own peers (i + j) r k
  dead : ∀ j r, rows[j]? = some r → ¬ Spared own peers (i + j) r → key r ∈ keys after →
    ∃ j' > j, ∃ r', rows[j']? = some r' ∧ Lists host own peers (i + j') r' (key r)

theorem Turns.nil (nodes : List Db.Row) : Turns host own peers i [] nodes nodes where
  kept _ hk _ := hk
  fresh _ hk := .inl hk
  dead _ _ h := by simp at h

theorem Turns.cons (hturn : Turn host own peers i r nodes mid)
    (hturns : Turns host own peers (i + 1) rows mid after) :
    Turns host own peers i (r :: rows) nodes after where
  kept k hk hspared := by
    have hmid : k ∈ keys mid := hturn.kept k hk fun hkey => hspared 0 r rfl hkey
    refine hturns.kept k hmid fun j r' hj hkey => ?_
    rw [show i + 1 + j = i + (j + 1) by omega]
    exact hspared (j + 1) r' hj hkey
  fresh k hk := by
    rcases hturns.fresh k hk with hk | ⟨j, r', hj, hlists⟩
    · rcases hturn.fresh k hk with hk | hlists
      · exact .inl hk
      · exact .inr ⟨0, r, rfl, hlists⟩
    · rw [show i + 1 + j = i + (j + 1) by omega] at hlists
      exact .inr ⟨j + 1, r', hj, hlists⟩
  dead j r' hj hdead hk := by
    cases j with
    | zero =>
      cases hj
      rcases hturns.fresh _ hk with hmid | ⟨j, r', hj, hlists⟩
      · exact absurd hmid (hturn.dead hdead)
      · rw [show i + 1 + j = i + (j + 1) by omega] at hlists
        exact ⟨j + 1, Nat.succ_pos j, r', hj, hlists⟩
    | succ j =>
      rw [show i + (j + 1) = i + 1 + j by omega] at hdead
      obtain ⟨j', hlt, r'', hj', hlists⟩ := hturns.dead j r' hj hdead hk
      rw [show i + 1 + j' = i + (j' + 1) by omega] at hlists
      exact ⟨j' + 1, Nat.succ_lt_succ hlt, r'', hj', hlists⟩

theorem visitNodes_turns (rows : List Db.Row) (i : Nat) (nodes : List Db.Row)
    (hkey : ∀ r ∈ rows, key r = (nodePair r.toNode).key ∧ DottedQuad r.server)
    (hclean : ∀ j r, rows[j]? = some r → isMyIp own r.server = false →
      CleanAnswer host own peers (i + j)) :
    ∃ after, visitNodes host own (PassIo.ok peers).visits i (rows.map Db.Row.toNode)
        ⟨false, nodes⟩ = some ⟨false, after⟩ ∧ Turns host own peers i rows nodes after := by
  induction rows generalizing i nodes with
  | nil => exact ⟨nodes, rfl, .nil nodes⟩
  | cons r rows ih =>
    obtain ⟨⟨hr, hquad⟩, hrows⟩ := List.forall_mem_cons.mp hkey
    have hfirst : isMyIp own r.server = false → CleanAnswer host own peers i :=
      fun hown => hclean 0 r rfl hown
    obtain ⟨e, mid, he, hresult, hdb, hturn⟩ := exchange_turn hr hquad hfirst nodes
    obtain ⟨after, hvisit, hturns⟩ := ih (i + 1) mid hrows fun j r' hj hown => by
      rw [show i + 1 + j = i + (j + 1) by omega]
      exact hclean (j + 1) r' hj hown
    refine ⟨after, ?_, .cons hturn hturns⟩
    rw [List.map_cons, visitNodes]
    simp only [PassIo.ok] at hvisit ⊢
    rw [he]
    split
    · contradiction
    · rw [hdb, hvisit]

-- ---------------------------------------------------------------------------
-- The pass
-- ---------------------------------------------------------------------------

theorem loaded_sublist (nodes : List Db.Row) : (loaded nodes).Sublist nodes :=
  (List.take_sublist _ _).trans List.filter_sublist

theorem eq_of_key {i j : Nat} (hdistinct : (keys nodes).Nodup) (hi : (loaded nodes)[i]? = some r)
    (hj : (loaded nodes)[j]? = some r') (h : key r = key r') : i = j := by
  have hnodup : ((loaded nodes).map key).Nodup := hdistinct.sublist ((loaded_sublist nodes).map key)
  have hlen : i < ((loaded nodes).map key).length := by
    rw [List.length_map]
    exact (List.getElem?_eq_some_iff.mp hi).1
  refine (List.getElem?_inj hlen hnodup).mp ?_
  rw [List.getElem?_map, List.getElem?_map, hi, hj, Option.map_some, Option.map_some, h]

/-- Where each node that has its turn answers cleanly, the pass ends, and only
dead nodes are gone. -/
theorem pruned_of_clean (htidy : Tidy nodes) (hdistinct : (keys nodes).Nodup)
    (hclean : ∀ i r, (loaded nodes)[i]? = some r → isMyIp own r.server = false →
      CleanAnswer host own peers i) :
    ∃ after, connectLocaldbNodeServers host own (.ok peers) ⟨false, nodes⟩ = .done 1 ⟨false, after⟩ ∧
      Pruned host own peers nodes after := by
  have hrow : ∀ r ∈ loaded nodes, key r = (nodePair r.toNode).key ∧ DottedQuad r.server :=
    fun r hr => ⟨(key_nodePair htidy ((loaded_sublist nodes).subset hr)).symm,
      (htidy r ((loaded_sublist nodes).subset hr)).1⟩
  have hread := Db.getAllActiveNodes_ok host.sqlite nodes (UInt8.ofNat maxActiveNodes)
  obtain ⟨after, hvisit, hturns⟩ := visitNodes_turns (loaded nodes) 0 nodes hrow fun j r hj hown => by
    rw [Nat.zero_add]
    exact hclean j r hj hown
  refine ⟨after, ?_, ?_, ?_, ?_, ?_⟩
  · rw [connectLocaldbNodeServers]
    simp only [PassIo.ok, hread] at hvisit ⊢
    rw [loaded, show maxActiveNodes = (UInt8.ofNat maxActiveNodes).toNat from rfl] at hvisit
    simp only [hvisit]
    rfl
  · intro k hk hnot
    refine hturns.kept k hk fun j r hj hkey => ?_
    rw [← hkey] at hnot
    exact absurd (List.mem_map_of_mem (List.mem_of_getElem? hj)) hnot
  · intro i r hi hspared
    have hmem : key r ∈ keys nodes :=
      List.mem_map_of_mem ((loaded_sublist nodes).subset (List.mem_of_getElem? hi))
    refine hturns.kept _ hmem fun j r' hj hkey => ?_
    rw [Nat.zero_add, ← eq_of_key hdistinct hi hj hkey.symm]
    have hsame : r' = r := by
      rw [← eq_of_key hdistinct hi hj hkey.symm, hi] at hj
      exact (Option.some.inj hj).symm
    rwa [hsame]
  · intro i r hi hdead hk
    simpa using hturns.dead i r hi (by simpa using hdead) hk
  · intro k hk hnew
    rcases hturns.fresh k hk with hold | hlisted
    · exact absurd hold hnew
    · simpa using hlisted

-- ---------------------------------------------------------------------------
-- Two passes
-- ---------------------------------------------------------------------------

/-- The first node is up and lists the given pair, the second one is down. -/
def listingPeers (server : String) : Nat → Peer
  | 0 => (Ping.listing server).peer
  | _ => ⟨false, false, [], []⟩

def twoRows : List Db.Row :=
  [⟨bytes "10.0.0.5", 9060, Db.active⟩, ⟨bytes "10.0.0.6", 9060, Db.active⟩]

theorem tidy_twoRows : Tidy twoRows := by
  intro r hr
  simp only [twoRows, List.mem_cons, List.not_mem_nil, or_false] at hr
  rcases hr with rfl | rfl
  · exact ⟨⟨⟨10, 0, 0, 5⟩, by decide⟩, by decide, by decide⟩
  · exact ⟨⟨⟨10, 0, 0, 6⟩, by decide⟩, by decide, by decide⟩

theorem cleanAnswer_down (h : isGeonsHostAvailable (peers i) = some false) :
    CleanAnswer host own peers i :=
  ⟨by simp [h], fun havailable => by simp [Available, h] at havailable⟩

theorem pruned_twoRows :
    ∃ after, connectLocaldbNodeServers sampleHost [] (.ok (listingPeers "10.0.0.7"))
        ⟨false, twoRows⟩ = .done 1 ⟨false, after⟩ ∧
      Pruned sampleHost [] (listingPeers "10.0.0.7") twoRows after := by
  have hentries : entries sampleHost (listingPeers "10.0.0.7" 0).nodes =
      [some (bytes "10.0.0.7", 9060)] := by decide +kernel
  have hplain : Db.Plain (bytes "10.0.0.7") 9060 := by decide +kernel
  have hhello : isGeonsHostAvailable (listingPeers "10.0.0.7" 0) ≠ none := by decide +kernel
  refine pruned_of_clean tidy_twoRows (by decide +kernel) fun i r _ _ => ?_
  cases i with
  | zero =>
    refine ⟨hhello, fun _ e he => ?_⟩
    rw [hentries] at he
    exact ⟨_, List.mem_singleton.mp he, .inr hplain⟩
  | succ i => exact cleanAnswer_down rfl

/-- The quote pair in the listed server is read as one quote, and the row that
is inserted is not the one that was listed. -/
theorem not_pruned_quoted :
    ∃ after, connectLocaldbNodeServers sampleHost [] (.ok (listingPeers "a''b"))
        ⟨false, twoRows⟩ = .done 1 ⟨false, after⟩ ∧
      keys after = [(bytes "10.0.0.5", 9060), (bytes "a'b", 9060)] ∧
      ¬ Pruned sampleHost [] (listingPeers "a''b") twoRows after := by
  have hentries : entries sampleHost (listingPeers "a''b" 0).nodes =
      [some (bytes "a''b", 9060)] := by decide +kernel
  refine ⟨[⟨bytes "10.0.0.5", 9060, Db.active⟩, ⟨bytes "a'b", 9060, Db.active⟩],
    by decide +kernel, by decide +kernel, fun h => ?_⟩
  obtain ⟨j, r, -, -, havailable, p, hp, hkey⟩ :=
    h.fresh (bytes "a'b", 9060) (by decide +kernel) (by decide +kernel)
  cases j with
  | zero =>
    rw [hentries, List.mem_singleton] at hp
    cases hp
    revert hkey
    decide +kernel
  | succ j => simp [Available, listingPeers, isGeonsHostAvailable] at havailable

end GeoNS.Geonsp
