import GeoNS.Runs
import GeoNS.Geonsp.Protocol

/-!
# The address of the caller

The accept thread stores in every connection the pointer that `inet_ntoa`
returned, and that is the same buffer for all of them. An `ADD_NODE` reads the
buffer when it builds its two query texts, whenever that is.
-/

namespace GeoNS.Geonsp.Caller

open CString Parson Inet Runs

/-- A connection, with the address it was accepted from; `started` tells that
its client thread could be created. -/
structure Client where
  addr : Ipv4
  started : Bool
  deriving DecidableEq

/-- `cell` is the buffer of `inet_ntoa` in the accept thread, and every
connection's `client_addr` points to it. `pending` is the port of an
`ADD_NODE` that is between its two queries, and `inserted` logs the address
text of each `INSERT` with the connection it was made for. -/
structure State where
  cell : Bytes
  accepted : Option Ipv4
  clients : List Client
  pending : Nat → Option UInt16
  nodes : List Db.Row
  inserted : List (Nat × Bytes)

inductive Label
  | accept (addr : Ipv4)
  | register (created : Bool)
  | select (c : Nat) (request : Option Object) (io : Db.Calls)
  | insert (c : Nat) (io : Db.Calls)

def State.register (s : State) (addr : Ipv4) (created : Bool) : State :=
  { s with cell := inetNtoa addr, accepted := none, clients := s.clients ++ [⟨addr, created⟩] }

def step (host : Host) (s : State) : Label → Option State
  | .accept addr => if s.accepted = none then some { s with accepted := some addr } else none
  | .register created => s.accepted.map fun addr => s.register addr created
  | .select c request io =>
    if s.clients[c]?.any (·.started) && s.pending c == none then
      let port := addNodePort host request
      match Db.selectNode host.sqlite io ⟨false, s.nodes⟩ s.cell port with
      | .noRow => some { s with pending := Function.update s.pending c (some port) }
      | _ => some s
    else none
  | .insert c io =>
    (s.pending c).map fun port =>
      { s with
        pending := Function.update s.pending c none
        nodes := (Db.insertRow host.sqlite io ⟨false, s.nodes⟩ s.cell port).2.nodes
        inserted := s.inserted ++ [(c, s.cell)] }

def begin (cell : Bytes) (nodes : List Db.Row) : State := ⟨cell, none, [], fun _ => none, nodes, []⟩

/-- The two queries of a connection, with nothing between them, are the
insertion of the handler. -/
theorem select_insert (hpending : s.pending c = none) (hs : step host s (.select c request io) = some s')
    (hi : step host s' (.insert c io) = some t) :
    t.nodes = (Db.insertNewNode host.sqlite io ⟨false, s.nodes⟩ s.cell (addNodePort host request)).2.nodes := by
  simp only [step] at hs
  split at hs
  case isFalse => contradiction
  split at hs
  · rename_i hfound
    cases hs
    simp only [step, Function.update_self, Option.map_some, Option.some.injEq] at hi
    subst hi
    simp [Db.insertNewNode, hfound]
  · cases hs
    simp [step, hpending] at hi

-- ---------------------------------------------------------------------------
-- Whose address is inserted
-- ---------------------------------------------------------------------------

/-- Every `INSERT` was made with the address its connection was accepted from. -/
def RegistersCaller (s : State) : Prop :=
  ∀ c text, (c, text) ∈ s.inserted → ∃ client, s.clients[c]? = some client ∧
    text = inetNtoa client.addr

/-- An `INSERT` comes when the last client the accept thread has registered
has the address of the connection it is made for. -/
def SameAddress (s : State) : Label → Prop
  | .insert c _ =>
    ∃ client last, s.clients[c]? = some client ∧ s.clients.getLast? = some last ∧
      client.addr = last.addr
  | _ => True

structure Inv (s : State) : Prop where
  cell : ∀ last, s.clients.getLast? = some last → s.cell = inetNtoa last.addr
  pending : ∀ c port, s.pending c = some port → c < s.clients.length
  inserted : ∀ c text, (c, text) ∈ s.inserted → c < s.clients.length

theorem Inv.begin (cell : Bytes) (nodes : List Db.Row) : Inv (begin cell nodes) where
  cell _ h := nomatch h
  pending _ _ h := nomatch h
  inserted _ _ h := nomatch h

theorem Inv.register (hinv : Inv s) (addr : Ipv4) (created : Bool) :
    Inv (s.register addr created) where
  cell last h := by
    rw [State.register, List.getLast?_concat] at h
    cases h
    rfl
  pending c port h := by
    have := hinv.pending c port h
    simp only [State.register, List.length_append, List.length_singleton]
    omega
  inserted c text h := by
    have := hinv.inserted c text h
    simp only [State.register, List.length_append, List.length_singleton]
    omega

theorem registersCaller_register (hinv : Inv s) (addr : Ipv4) (created : Bool) :
    RegistersCaller (s.register addr created) ↔ RegistersCaller s := by
  unfold RegistersCaller State.register
  refine forall_congr' fun c => forall_congr' fun text => imp_congr_right fun hmem => ?_
  rw [List.getElem?_append_left (hinv.inserted c text hmem)]

theorem registersCaller_insert (hinv : Inv s) (hpending : s.pending c = some port)
    (hclients : t.clients = s.clients) (hinserted : t.inserted = s.inserted ++ [(c, s.cell)]) :
    RegistersCaller t ↔ RegistersCaller s ∧ SameAddress s (.insert c io) := by
  have hlt := hinv.pending c port hpending
  obtain ⟨client, hclient⟩ : ∃ client, s.clients[c]? = some client :=
    ⟨_, List.getElem?_eq_getElem hlt⟩
  obtain ⟨last, hlast⟩ : ∃ last, s.clients.getLast? = some last := by
    have hne : s.clients ≠ [] := by
      rintro hnil
      simp [hnil] at hlt
    exact ⟨s.clients.getLast hne, List.getLast?_eq_some_getLast hne⟩
  have hcell := hinv.cell last hlast
  unfold RegistersCaller SameAddress
  rw [hclients, hinserted]
  constructor
  · intro h
    refine ⟨fun c' text hmem => h c' text (List.mem_append_left _ hmem), client, last, hclient,
      hlast, ?_⟩
    obtain ⟨client', hclient', htext⟩ := h c s.cell (by simp)
    rw [hclient] at hclient'
    cases hclient'
    rw [hcell] at htext
    exact (inetNtoa_injective htext).symm
  · rintro ⟨h, client', last', hclient', hlast', haddr⟩ c' text hmem
    rw [List.mem_append, List.mem_singleton] at hmem
    rcases hmem with hmem | hmem
    · exact h c' text hmem
    · cases hmem
      rw [hlast] at hlast'
      cases hlast'
      exact ⟨client', hclient', by rw [hcell, haddr]⟩

theorem step_verdict (host : Host) (s : State) (l : Label) (t : State) (hinv : Inv s)
    (h : step host s l = some t) :
    Inv t ∧ (RegistersCaller t ↔ RegistersCaller s ∧ SameAddress s l) := by
  cases l with
  | accept addr =>
    simp only [step] at h
    split at h
    case isFalse => contradiction
    cases h
    exact ⟨⟨hinv.cell, hinv.pending, hinv.inserted⟩, (and_iff_left trivial).symm⟩
  | register created =>
    obtain ⟨addr, -, rfl⟩ := Option.map_eq_some_iff.mp h
    refine ⟨hinv.register addr created, ?_⟩
    rw [registersCaller_register hinv]
    exact (and_iff_left trivial).symm
  | select c request io =>
    simp only [step] at h
    split at h
    case isFalse => contradiction
    rename_i hstarted
    have hclient : c < s.clients.length := by
      by_contra hge
      simp [List.getElem?_eq_none (Nat.le_of_not_lt hge)] at hstarted
    split at h
    · cases h
      refine ⟨⟨hinv.cell, fun c' port h => ?_, hinv.inserted⟩, (and_iff_left trivial).symm⟩
      by_cases hc : c' = c
      · exact hc ▸ hclient
      · exact hinv.pending c' port (by simpa [hc] using h)
    · cases h
      exact ⟨hinv, (and_iff_left trivial).symm⟩
  | insert c io =>
    obtain ⟨port, hpending, rfl⟩ := Option.map_eq_some_iff.mp h
    refine ⟨⟨hinv.cell, fun c' port' h => ?_, fun c' text hmem => ?_⟩,
      registersCaller_insert hinv hpending rfl rfl⟩
    · by_cases hc : c' = c
      · simp [hc] at h
      · exact hinv.pending c' port' (by simpa [hc] using h)
    · rw [List.mem_append, List.mem_singleton] at hmem
      rcases hmem with hmem | hmem
      · exact hinv.inserted c' text hmem
      · cases hmem
        exact hinv.pending c port hpending

theorem registersCaller_iff (hrun : run (step host) (begin cell nodes) ls = some t) :
    RegistersCaller t ↔ Each (step host) SameAddress (begin cell nodes) ls := by
  have hbegin : RegistersCaller (begin cell nodes) := fun _ _ hmem => nomatch hmem
  rw [verdict_iff (step_verdict host) hrun (Inv.begin cell nodes)]
  exact and_iff_right hbegin

/-- An `ADD_NODE` of the first client, in one run before and in the other
after a second client is accepted. -/
def alone : List Label :=
  [.accept ⟨10, 0, 0, 1⟩, .register true, .select 0 none .ok, .insert 0 .ok]

def overtaken : List Label :=
  [.accept ⟨10, 0, 0, 1⟩, .register true, .accept ⟨10, 0, 0, 2⟩, .register true,
    .select 0 none .ok, .insert 0 .ok]

theorem registersCaller_alone :
    ∃ t, run (step ⟨[], .strict, fun _ => 0⟩) (begin [] []) alone = some t ∧
      (RegistersCaller t ↔
        Each (step ⟨[], .strict, fun _ => 0⟩) SameAddress (begin [] []) alone) := by
  have hrun : (run (step ⟨[], .strict, fun _ => 0⟩) (begin [] []) alone).isSome := by
    decide +kernel
  obtain ⟨t, ht⟩ := Option.isSome_iff_exists.mp hrun
  exact ⟨t, ht, registersCaller_iff ht⟩

theorem not_registersCaller_overtaken :
    ∃ t, run (step ⟨[], .strict, fun _ => 0⟩) (begin [] []) overtaken = some t ∧
      ¬ RegistersCaller t := by
  have hrun : (run (step ⟨[], .strict, fun _ => 0⟩) (begin [] []) overtaken).map
      (fun t => (t.clients, t.inserted)) =
        some ([⟨⟨10, 0, 0, 1⟩, true⟩, ⟨⟨10, 0, 0, 2⟩, true⟩], [(0, bytes "10.0.0.2")]) := by
    decide +kernel
  obtain ⟨t, ht, hlog⟩ := Option.map_eq_some_iff.mp hrun
  obtain ⟨hclients, hinserted⟩ := Prod.mk.inj hlog
  refine ⟨t, ht, fun h => ?_⟩
  obtain ⟨client, hclient, htext⟩ := h 0 (bytes "10.0.0.2") (by simp [hinserted])
  rw [hclients] at hclient
  cases hclient
  revert htext
  decide

end GeoNS.Geonsp.Caller
