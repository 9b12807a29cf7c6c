import GeoNS.Socket.Lifecycle

/-!
# Draining the list

`kill_socket_server` with nobody else at work: the loop walks the list and removes
each connection from its front, after it has saved the pointer to the next one.
-/

namespace GeoNS.Socket

open LinkedList SlotTable

/-- What a kill gives back: the socket, the buffer and the node of a connection,
and the server's descriptor and the server. -/
inductive Release
  | close (c : Nat)
  | buffer (c : Nat)
  | node (c : Nat)
  | closeServer
  | server
  deriving DecidableEq, Repr

def State.releases (s : State) (c : Nat) : Stage → List Release
  | .close _ => [.close c]
  | .freeBuffer _ => if (s.connections c).hasBuffer then [.buffer c] else []
  | .unlink prev => (Lifecycle.freedNode s c (.unlink prev)).map .node
  | .find | .tail _ => []

/-- `remove_connection` from the given stage on; `none` is a fault. -/
def State.remove (s : State) (c : Nat) : (fuel : Nat) → Stage → Option (State × List Release)
  | 0, _ => none
  | fuel + 1, stage =>
    match s.removeStep c stage with
    | none => none
    | some (t, none) => some (t, s.releases c stage)
    | some (t, some after) => (t.remove c fuel after).map fun p => (p.1, s.releases c stage ++ p.2)

theorem fst_remove (s : State) (c : Nat) (fuel : Nat) (stage : Stage) :
    (s.remove c fuel stage).map Prod.fst = s.finish c fuel stage := by
  induction fuel generalizing s stage with
  | zero => rfl
  | succ fuel ih =>
    rw [State.remove, State.finish]
    rcases s.removeStep c stage with _ | ⟨t, _ | after⟩
    · rfl
    · rfl
    · exact (Option.map_map ..).trans (ih t after)

/-- The loop of `kill_socket_server`; `none` is a fault, or a list that does not end. -/
def State.killLoop (s : State) : (fuel : Nat) → (current : Option Nat) → Option (State × List Release)
  | _, none => some (s, [])
  | 0, some _ => none
  | fuel + 1, some previous =>
    if (s.connections previous).freed then none
    else
      let current := s.next previous
      (s.remove previous 5 .find).bind fun p =>
        (p.1.killLoop fuel current).map fun q => (q.1, p.2 ++ q.2)

def State.closeServer (s : State) : State := { s with table := free s.table s.serverFd }

def State.killSocketServer (s : State) (fuel : Nat) : Option (State × List Release) :=
  (s.killLoop fuel s.head).map fun p => (p.1.closeServer, p.2 ++ [.closeServer, .server])

/-- The calls that were made, with their connections. -/
def State.calls (s : State) : List (Nat × FdCall) := s.uses.map fun u => (u.connection, u.call)

namespace Drain

-- ---------------------------------------------------------------------------
-- The front of the list
-- ---------------------------------------------------------------------------

structure Chain (s : State) (l : List Nat) : Prop where
  isList : IsList s.next s.head l
  nodup : l.Nodup
  live : ∀ c ∈ l, (s.connections c).freed = false

/-- The removal of the first connection: what is given back, and the rest of the
list, whose connections are as they were. -/
def Removes (s : State) (c : Nat) (l : List Nat) (result : Option (State × List Release))
    (log : List Release) : Prop :=
  ∃ t, result = some (t, log) ∧ Chain t l ∧ (t.connections c).freed ∧
    ∀ d, d ≠ c → t.connections d = s.connections d

theorem Removes.before {result : Option (State × List Release)}
    (h : Removes t c l result log) (hothers : ∀ d, d ≠ c → t.connections d = s.connections d)
    (before : List Release) : Removes s c l (result.map fun p => (p.1, before ++ p.2)) (before ++ log) := by
  obtain ⟨u, rfl, hchain, hfreed, hsame⟩ := h
  exact ⟨u, rfl, hchain, hfreed, fun d hd => (hsame d hd).trans (hothers d hd)⟩

theorem remove_succ {s : State} (h : s.removeStep c stage = some (t, some after)) (fuel : Nat) :
    s.remove c (fuel + 1) stage = (t.remove c fuel after).map fun p => (p.1, s.releases c stage ++ p.2) := by
  rw [State.remove, h]

theorem Chain.head_eq (h : Chain s (c :: l)) : s.head = some c := h.isList.1

theorem freed_freeNode (s : State) (c : Nat) : ((s.freeNode c).connections c).freed := by
  simp [State.freeNode, State.modify]

theorem connections_freeNode (s : State) (hd : d ≠ c) : (s.freeNode c).connections d = s.connections d := by
  simp [State.freeNode, State.modify, hd]

theorem Chain.unlink (h : Chain s (c :: l)) (fuel : Nat) :
    Removes s c l (s.remove c (fuel + 2) (.unlink none)) [.node c] := by
  have hlive := h.live c List.mem_cons_self
  obtain ⟨hnot, hnodup⟩ := List.nodup_cons.mp h.nodup
  have hne : ∀ d ∈ l, d ≠ c := fun d hd hdc => hnot (hdc ▸ hd)
  obtain ⟨hhead, hrest⟩ := h.isList
  cases hnext : s.next c with
  | none =>
    rw [hnext] at hrest
    obtain rfl := seg_null hrest
    refine ⟨{ s.freeNode c with head := none }, ?_, ⟨rfl, List.nodup_nil, by simp⟩,
      freed_freeNode s c, fun d hd => connections_freeNode s hd⟩
    simp [State.remove, State.removeStep, State.releases, Lifecycle.freedNode, hlive, hnext, hhead]
  | some q =>
    rw [hnext] at hrest
    have hchain : Chain ({ s with head := some q }.freeNode c) l := by
      refine ⟨hrest, hnodup, fun d hd => ?_⟩
      rw [connections_freeNode _ (hne d hd)]
      exact h.live d (List.mem_cons_of_mem c hd)
    refine ⟨_, ?_, hchain, freed_freeNode _ c, fun d hd => connections_freeNode _ hd⟩
    simp [State.remove, State.removeStep, State.releases, Lifecycle.freedNode, hlive, hnext]

def memoryOf (s : State) (c : Nat) : List Release :=
  (if (s.connections c).hasBuffer then [.buffer c] else []) ++ [.node c]

theorem Chain.freeBuffer (h : Chain s (c :: l)) (fuel : Nat) :
    Removes s c l (s.remove c (fuel + 3) (.freeBuffer none)) (memoryOf s c) := by
  have hlive := h.live c List.mem_cons_self
  have hothers (d : Nat) (hd : d ≠ c) :
      (s.modify c fun connection => { connection with hasBuffer := false }).connections d =
        s.connections d := by simp [State.modify, hd]
  have hchain : Chain (s.modify c fun connection => { connection with hasBuffer := false }) (c :: l) := by
    refine ⟨h.isList, h.nodup, fun d hd => ?_⟩
    by_cases hdc : d = c
    · simp [State.modify, hdc, hlive]
    · rw [hothers d hdc]
      exact h.live d hd
  have hstep : s.removeStep c (.freeBuffer none) = some (_, some (.unlink none)) := if_neg (by simp [hlive])
  rw [remove_succ hstep]
  exact (hchain.unlink fuel).before hothers (s.releases c (.freeBuffer none))

theorem Chain.congr (h : Chain s l) (hlist : t.next = s.next ∧ t.head = s.head)
    (hconnections : t.connections = s.connections) : Chain t l := by
  obtain ⟨hnext, hhead⟩ := hlist
  refine ⟨?_, h.nodup, fun c hc => ?_⟩
  · rw [hnext, hhead]
    exact h.isList
  · rw [hconnections]
    exact h.live c hc

theorem Chain.close (h : Chain s (c :: l)) (fuel : Nat) :
    Removes s c l (s.remove c (fuel + 4) (.close none)) (.close c :: memoryOf s c) := by
  have hlive := h.live c List.mem_cons_self
  have hchain : Chain (s.useFd c .close) (c :: l) := h.congr ⟨rfl, rfl⟩ rfl
  have hstep : s.removeStep c (.close none) = some (_, some (.freeBuffer none)) := if_neg (by simp [hlive])
  rw [remove_succ hstep]
  exact (hchain.freeBuffer fuel).before (fun _ _ => rfl) (s.releases c (.close none))

def releasesOf (s : State) (c : Nat) : List Release :=
  (if (s.connections c).established then [.close c] else []) ++ memoryOf s c

theorem Chain.remove (h : Chain s (c :: l)) : Removes s c l (s.remove c 5 .find) (releasesOf s c) := by
  have hsearch : s.search c (s.count + 1) none s.head = .found none := by
    rw [h.head_eq, State.search, if_pos rfl]
  have hfind : s.removeStep c .find =
      some (s, some (if (s.connections c).established then .close none else .freeBuffer none)) := by
    rw [State.removeStep, hsearch]
  rw [remove_succ hfind, releasesOf]
  cases hestablished : (s.connections c).established with
  | true => exact (h.close 0).before (fun _ _ => rfl) []
  | false => exact (h.freeBuffer 1).before (fun _ _ => rfl) []

-- ---------------------------------------------------------------------------
-- The loop
-- ---------------------------------------------------------------------------

theorem releasesOf_congr {s t : State} (h : t.connections c = s.connections c) :
    releasesOf t c = releasesOf s c := by
  rw [releasesOf, releasesOf, memoryOf, memoryOf, h]

theorem Chain.killLoop (h : Chain s l) (hfuel : l.length ≤ fuel) :
    ∃ t, s.killLoop fuel s.head = some (t, l.flatMap (releasesOf s)) ∧ Chain t [] ∧
      (∀ c ∈ l, (t.connections c).freed) ∧ ∀ c, c ∉ l → t.connections c = s.connections c := by
  induction l generalizing s fuel with
  | nil =>
    have hhead : s.head = none := h.isList
    refine ⟨s, ?_, h, by simp, fun _ _ => rfl⟩
    rw [hhead]
    cases fuel <;> rfl
  | cons c l ih =>
    obtain ⟨hnot, -⟩ := List.nodup_cons.mp h.nodup
    have hlive := h.live c List.mem_cons_self
    obtain ⟨t, hremove, hchain, hfreed, hsame⟩ := h.remove
    cases fuel with
    | zero => contradiction
    | succ fuel =>
      obtain ⟨u, hloop, hempty, hgone, hkept⟩ := ih hchain (Nat.le_of_succ_le_succ hfuel)
      -- the pointer that was saved is the head the removal leaves
      have hsaved : s.next c = t.head := by
        have hrest : IsList s.next (s.next c) l := h.isList.2
        rw [isList_head hrest, isList_head hchain.isList]
      have hlog : l.flatMap (releasesOf t) = l.flatMap (releasesOf s) :=
        List.flatMap_congr fun d hd => releasesOf_congr (hsame d fun hdc => hnot (hdc ▸ hd))
      refine ⟨u, ?_, hempty, ?_, ?_⟩
      · rw [h.head_eq, State.killLoop, if_neg (by simp [hlive])]
        dsimp only
        rw [hremove, Option.bind_some, hsaved, hloop, hlog]
        rfl
      · intro d hd
        rcases List.mem_cons.mp hd with rfl | hd
        · rw [hkept d hnot]
          exact hfreed
        · exact hgone d hd
      · intro d hd
        obtain ⟨hdc, hd⟩ := List.ne_and_not_mem_of_not_mem_cons hd
        rw [hkept d hd, hsame d hdc]

-- ---------------------------------------------------------------------------
-- The log and the descriptors
-- ---------------------------------------------------------------------------

def closes (log : List Release) : List Nat :=
  log.filterMap fun
    | .close c => some c
    | _ => none

theorem closes_append (log log' : List Release) : closes (log ++ log') = closes log ++ closes log' :=
  List.filterMap_append

/-- The closes of the log are the calls that were made, and their numbers are free. -/
structure Logged (s t : State) (log : List Release) : Prop where
  calls : t.calls = s.calls ++ (closes log).map (·, .close)
  table : ∀ n, slot t.table n = if ∃ c ∈ closes log, (s.connections c).fd = some n then none else slot s.table n
  serverFd : t.serverFd = s.serverFd
  fd : ∀ c, (t.connections c).fd = (s.connections c).fd

theorem Logged.quiet (huses : t.uses = s.uses) (htable : t.table = s.table) (hserver : t.serverFd = s.serverFd)
    (hfd : ∀ c, (t.connections c).fd = (s.connections c).fd) (hlog : closes log = []) : Logged s t log where
  calls := by simp [State.calls, huses, hlog]
  table n := by simp [htable, hlog]
  serverFd := hserver
  fd := hfd

theorem Logged.trans (h : Logged s t log) (h' : Logged t u log') : Logged s u (log ++ log') where
  calls := by
    rw [h'.calls, h.calls, closes_append, List.map_append, List.append_assoc]
  table n := by
    simp only [h'.table, h.table, h.fd, closes_append, List.mem_append, or_and_right, exists_or]
    split <;> split <;> simp_all
  serverFd := h'.serverFd.trans h.serverFd
  fd c := (h'.fd c).trans (h.fd c)

theorem logged_useFd (s : State) (c : Nat) : Logged s (s.useFd c .close) [.close c] where
  calls := by simp [State.calls, State.useFd, closes]
  table n := by
    cases hfd : (s.connections c).fd with
    | none => simp [State.useFd, closes, hfd]
    | some m => simp [State.useFd, closes, hfd, slot_free, eq_comm]
  serverFd := rfl
  fd _ := rfl

theorem closes_freed (l : List Nat) : closes (l.map .node) = [] := by simp [closes]

theorem fd_freeNode (s : State) (c d : Nat) : ((s.freeNode c).connections d).fd = (s.connections d).fd := by
  by_cases hd : d = c
  · subst hd
    simp [State.freeNode, State.modify]
  · rw [connections_freeNode s hd]

theorem logged_removeStep (h : s.removeStep c stage = some (t, after)) : Logged s t (s.releases c stage) := by
  cases stage with
  | find =>
    simp only [State.removeStep] at h
    split at h <;> cases h
    · exact .quiet rfl rfl rfl (fun _ => rfl) rfl
    · exact .quiet rfl rfl rfl (fun _ => rfl) rfl
  | close prev =>
    simp only [State.removeStep] at h
    split at h <;> cases h
    exact logged_useFd s c
  | freeBuffer prev =>
    simp only [State.removeStep] at h
    split at h <;> cases h
    refine .quiet rfl rfl rfl (fun d => ?_) ?_
    · by_cases hd : d = c
      · subst hd
        simp [State.modify]
      · simp [State.modify, hd]
    · unfold State.releases
      dsimp only
      split <;> rfl
  | unlink prev =>
    have hlog : closes (s.releases c (.unlink prev)) = [] := closes_freed _
    simp only [State.removeStep] at h
    split at h
    · cases h
    split at h
    · cases h
      exact .quiet rfl rfl rfl (fd_freeNode { s with head := _ } c) hlog
    · split at h <;> cases h
      exact .quiet rfl rfl rfl (fd_freeNode { s with next := _ } c) hlog
    · split at h
      · cases h
        exact .quiet rfl rfl rfl (fun _ => rfl) hlog
      · split at h <;> cases h
        exact .quiet rfl rfl rfl (fd_freeNode s _) hlog
    · cases h
      exact .quiet rfl rfl rfl (fd_freeNode s c) hlog
  | tail prev =>
    cases prev with
    | none =>
      cases h
      exact .quiet rfl rfl rfl (fun _ => rfl) rfl
    | some p =>
      simp only [State.removeStep] at h
      split at h <;> cases h
      exact .quiet rfl rfl rfl (fun _ => rfl) rfl

theorem logged_remove (h : s.remove c fuel stage = some (t, log)) : Logged s t log := by
  induction fuel generalizing s stage t log with
  | zero => cases h
  | succ fuel ih =>
    rw [State.remove] at h
    split at h
    · cases h
    · next hstep =>
      cases h
      exact logged_removeStep hstep
    · next hstep =>
      obtain ⟨⟨u, rest⟩, hrest, heq⟩ := Option.map_eq_some_iff.mp h
      cases heq
      exact (logged_removeStep hstep).trans (ih hrest)

theorem logged_killLoop (h : s.killLoop fuel current = some (t, log)) : Logged s t log := by
  induction fuel generalizing s current t log with
  | zero =>
    cases current with
    | none =>
      cases h
      exact .quiet rfl rfl rfl (fun _ => rfl) rfl
    | some c => cases h
  | succ fuel ih =>
    cases current with
    | none =>
      cases h
      exact .quiet rfl rfl rfl (fun _ => rfl) rfl
    | some c =>
      rw [State.killLoop] at h
      split at h
      · cases h
      obtain ⟨⟨u, first⟩, hremove, hmap⟩ := Option.bind_eq_some_iff.mp h
      obtain ⟨⟨v, rest⟩, hrest, heq⟩ := Option.map_eq_some_iff.mp hmap
      cases heq
      exact (logged_remove hremove).trans (ih hrest)

theorem closes_releasesOf (s : State) (l : List Nat) :
    closes (l.flatMap (releasesOf s)) = l.filter fun c => (s.connections c).established := by
  induction l with
  | nil => rfl
  | cons c l ih =>
    have hfirst : closes (releasesOf s c) = if (s.connections c).established then [c] else [] := by
      unfold releasesOf memoryOf
      cases (s.connections c).hasBuffer <;> cases (s.connections c).established <;> rfl
    rw [List.flatMap_cons, closes_append, hfirst, ih, List.filter_cons]
    split <;> rfl

-- ---------------------------------------------------------------------------
-- The kill
-- ---------------------------------------------------------------------------

/-- The kill of the server `s` with the connections `l` gives back each of them, and
the server last. -/
structure Drained (s t : State) (l : List Nat) (log : List Release) : Prop where
  head : t.head = none
  freed : ∀ c ∈ l, (t.connections c).freed
  nodes : ∀ c, log.count (.node c) = if c ∈ l then 1 else 0
  buffers : ∀ c, log.count (.buffer c) = if c ∈ l ∧ (s.connections c).hasBuffer then 1 else 0
  sockets : ∀ c, log.count (.close c) = if c ∈ l ∧ (s.connections c).established then 1 else 0
  calls : t.calls = s.calls ++ (l.filter fun c => (s.connections c).established).map (·, .close)
  table : ∀ n, slot t.table n =
    if n = s.serverFd ∨ ∃ c ∈ l, (s.connections c).established ∧ (s.connections c).fd = some n then none
    else slot s.table n
  server : ∃ before, log = before ++ [.closeServer, .server] ∧ .closeServer ∉ before ∧ .server ∉ before

/-- What the removal of `c` gives back, once and under a condition on it, and no other
removal does, is given back so by all. -/
theorem count_flatMap_releasesOf {l : List Nat} (hnodup : l.Nodup) (s : State) {P : Nat → Prop} [DecidablePred P]
    (hcount : ∀ d, (releasesOf s d).count r = if d = c ∧ P d then 1 else 0) :
    (l.flatMap (releasesOf s)).count r = if c ∈ l ∧ P c then 1 else 0 := by
  induction l with
  | nil => simp
  | cons d l ih =>
    obtain ⟨hnot, hnodup⟩ := List.nodup_cons.mp hnodup
    rw [List.flatMap_cons, List.count_append, ih hnodup, hcount d]
    by_cases hd : d = c
    · subst hd
      simp [hnot]
    · simp [hd, Ne.symm hd]

theorem count_node_releasesOf (s : State) (c d : Nat) :
    (releasesOf s c).count (.node d) = if c = d then 1 else 0 := by
  unfold releasesOf memoryOf
  cases (s.connections c).hasBuffer <;> cases (s.connections c).established <;> simp [List.count_singleton]

theorem count_buffer_releasesOf (s : State) (c d : Nat) :
    (releasesOf s c).count (.buffer d) = if c = d ∧ (s.connections c).hasBuffer then 1 else 0 := by
  unfold releasesOf memoryOf
  cases (s.connections c).hasBuffer <;> cases (s.connections c).established <;> simp [List.count_cons]

theorem count_close_releasesOf (s : State) (c d : Nat) :
    (releasesOf s c).count (.close d) = if c = d ∧ (s.connections c).established then 1 else 0 := by
  unfold releasesOf memoryOf
  cases (s.connections c).hasBuffer <;> cases (s.connections c).established <;> simp [List.count_cons]

theorem server_notMem_releasesOf (s : State) (c : Nat) :
    .closeServer ∉ releasesOf s c ∧ .server ∉ releasesOf s c := by
  unfold releasesOf memoryOf
  cases (s.connections c).hasBuffer <;> cases (s.connections c).established <;> simp

/-- Whatever the statuses of the connections are, the loop ends. -/
theorem drained_of_chain (h : Chain s l) (hfuel : l.length ≤ fuel) :
    ∃ t log, s.killSocketServer fuel = some (t, log) ∧ Drained s t l log := by
  obtain ⟨t, hloop, hempty, hfreed, -⟩ := h.killLoop hfuel
  have hlogged := logged_killLoop hloop
  refine ⟨t.closeServer, l.flatMap (releasesOf s) ++ [.closeServer, .server], ?_, hempty.isList, hfreed,
    fun c => ?_, fun c => ?_, fun c => ?_, ?_, fun n => ?_, _, rfl, ?_, ?_⟩
  · rw [State.killSocketServer, hloop, Option.map_some]
  · have hnode (d : Nat) : (releasesOf s d).count (.node c) = if d = c ∧ True then 1 else 0 := by
      simp only [count_node_releasesOf, and_true]
    rw [List.count_append, count_flatMap_releasesOf h.nodup s hnode]
    simp
  · rw [List.count_append, count_flatMap_releasesOf h.nodup s (count_buffer_releasesOf s · c)]
    rfl
  · rw [List.count_append, count_flatMap_releasesOf h.nodup s (count_close_releasesOf s · c)]
    rfl
  · rw [← closes_releasesOf]
    exact hlogged.calls
  · have htable : slot t.closeServer.table n = if n = s.serverFd then none else slot t.table n := by
      rw [← hlogged.serverFd]
      exact slot_free ..
    rw [htable, hlogged.table, closes_releasesOf]
    simp only [List.mem_filter, and_assoc]
    split <;> simp_all
  · intro hmem
    obtain ⟨c, -, hc⟩ := List.mem_flatMap.mp hmem
    exact (server_notMem_releasesOf s c).1 hc
  · intro hmem
    obtain ⟨c, -, hc⟩ := List.mem_flatMap.mp hmem
    exact (server_notMem_releasesOf s c).2 hc

-- ---------------------------------------------------------------------------
-- A sample
-- ---------------------------------------------------------------------------

/-- Two clients that are served, and the connection that waits for the next one. -/
def sampleServer : State :=
  { initial [true, true, true] with
    table := [some .other, some .other, some .other, some .other, some (.socket 0), some (.socket 1)]
    head := some 0
    next := fun c => if c < 2 then some (c + 1) else none
    connections := fun c =>
      if c < 2 then ⟨some (c + 4), true, true, false, .peek⟩ else ⟨none, false, false, false, .notStarted⟩
    count := 3
    acceptor := .accepting 2 }

theorem chain_sampleServer : Chain sampleServer [0, 1, 2] where
  isList := ⟨rfl, rfl, rfl, rfl⟩
  nodup := by decide
  live := by decide

theorem drained_sampleServer : ∃ t log, sampleServer.killSocketServer 3 = some (t, log) ∧
    log = [.close 0, .buffer 0, .node 0, .close 1, .buffer 1, .node 1, .node 2, .closeServer, .server] ∧
    Drained sampleServer t [0, 1, 2] log := by
  obtain ⟨t, log, hkill, hdrained⟩ := drained_of_chain chain_sampleServer (Nat.le_refl 3)
  have hlog : (sampleServer.killSocketServer 3).map Prod.snd =
      some [.close 0, .buffer 0, .node 0, .close 1, .buffer 1, .node 1, .node 2, .closeServer, .server] := by
    decide +kernel
  rw [hkill] at hlog
  exact ⟨t, log, hkill, Option.some.inj hlog, hdrained⟩

end Drain

end GeoNS.Socket
