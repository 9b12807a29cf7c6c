import GeoNS.Runs
import GeoNS.Socket.Connections

/-!
# The roster of connections

Here each call of `add_connection` and of `remove_connection` is one step, and
nobody kills the server. The accept loop and the handlers may then come and go
in any order: the list is always the connections somebody has yet to remove.
-/

namespace GeoNS.Socket

open LinkedList

/-- The stages of `remove_connection` from the given one on, with nothing in
between. -/
def State.finish (s : State) (c : Nat) : (fuel : Nat) → Stage → Option State
  | 0, _ => none
  | fuel + 1, stage =>
    match s.removeStep c stage with
    | none => none
    | some (t, none) => some t
    | some (t, some stage) => t.finish c fuel stage

/-- `remove_connection` with its result; `none` is a fault. -/
def State.removeConnection (s : State) (c : Nat) : Option (State × UInt8) :=
  (s.finish c 5 .find).map fun t =>
    (t, if s.search c (s.count + 1) none s.head = .missing then 0 else 1)

def Acceptor.current : Acceptor → Option Nat
  | .accepting c | .clientData c | .create c | .removing c _ | .killRemoving c .. => some c
  | _ => none

def Thread.Active : Thread → Prop
  | .notStarted | .ended => False
  | _ => True

namespace Roster

/-- `removals` logs the calls of `remove_connection` with their results. -/
structure State where
  sys : Socket.State
  removals : List (Nat × UInt8)

/-- `remove none` is the accept loop's call. -/
inductive Label
  | memalloc (ok : Bool)
  | accept (ok : Bool)
  | clientData (ok : Bool)
  | create (ok : Bool)
  | buffer (c : Nat) (ok : Bool)
  | peek (c : Nat) (got : Bool)
  | callback (c : Nat) (result : Int)
  | remove (a : Option Nat)

def stepPeek (s : Socket.State) (c : Nat) (got : Bool) : Option Socket.State :=
  match (s.connections c).thread with
  | .peek => some (s.reading c (s.setThread c (if got then .callback else .removing .find)))
  | _ => none

/-- Whatever the callback is, its result decides whether the loop goes on. -/
def stepCallback (s : Socket.State) (c : Nat) (result : Int) : Option Socket.State :=
  match (s.connections c).thread with
  | .callback => some (s.reading c (s.setThread c (if result = -1 then .removing .find else .peek)))
  | _ => none

def stepRemove (s : State) (a : Option Nat) : Option State :=
  match s.sys.removal a with
  | none => none
  | some (c, _) =>
    match s.sys.removeConnection c with
    | none => some { s with sys := s.sys.crash }
    | some (sys, result) => some ⟨sys.setRemoval a c none, s.removals ++ [(c, result)]⟩

def step (s : State) (l : Label) : Option State :=
  if s.sys.crashed then none
  else
    match l with
    | .memalloc ok => (stepMemalloc s.sys ok).map fun sys => { s with sys }
    | .accept ok => (stepAccept s.sys ok).map fun sys => { s with sys }
    | .clientData ok => (stepClientData s.sys ok).map fun sys => { s with sys }
    | .create ok => (stepCreate s.sys ok).map fun sys => { s with sys }
    | .buffer c ok => (stepBuffer s.sys c ok).map fun sys => { s with sys }
    | .peek c got => (stepPeek s.sys c got).map fun sys => { s with sys }
    | .callback c result => (stepCallback s.sys c result).map fun sys => { s with sys }
    | .remove a => stepRemove s a

def begin (others : List Bool) : State := ⟨initial others, []⟩

def Placeholder (s : Socket.State) (c : Nat) : Prop :=
  s.acceptor.current = some c ∧ (s.connections c).established = false

def Unfinished (s : Socket.State) (c : Nat) : Prop :=
  (s.connections c).established ∧
    (s.acceptor.current = some c ∨ (s.connections c).thread.Active)

/-- The list, with the connections numbered in the order they were added, and
what was removed from it. -/
structure Listed (s : State) (l : List Nat) : Prop where
  isList : IsList s.sys.next s.sys.head l
  order : l.Sublist (List.range s.sys.count)
  mem : ∀ c, c ∈ l ↔ Placeholder s.sys c ∨ Unfinished s.sys c
  results : ∀ r ∈ s.removals, r.2 = 1
  once : (s.removals.map (·.1)).Nodup
  removed : ∀ c, c ∈ s.removals.map (·.1) ↔ c < s.sys.count ∧ c ∉ l

/-- A call that takes one connection out of the list, and touches no other. -/
def RemovesOne (s t : State) : Prop :=
  ∃ c l₁ l₂, IsList s.sys.next s.sys.head (l₁ ++ c :: l₂) ∧
    IsList t.sys.next t.sys.head (l₁ ++ l₂) ∧ t.removals = s.removals ++ [(c, 1)] ∧
    ∀ d, d ≠ c → t.sys.connections d = s.sys.connections d

end Roster

-- ---------------------------------------------------------------------------
-- A whole call
-- ---------------------------------------------------------------------------

structure Unlinked (s t : State) (c : Nat) (l : List Nat) : Prop where
  isList : IsList t.next t.head l
  others : ∀ d, d ≠ c → t.connections d = s.connections d
  same : (t.connections c).established = (s.connections c).established ∧
    (t.connections c).thread = (s.connections c).thread
  acceptor : t.acceptor = s.acceptor
  count : t.count = s.count
  crashed : t.crashed = s.crashed

theorem Unlinked.established (h : Unlinked s t c l) (d : Nat) :
    (t.connections d).established = (s.connections d).established := by
  by_cases hdc : d = c
  · rw [hdc, h.same.1]
  · rw [h.others d hdc]

theorem Unlinked.thread (h : Unlinked s t c l) (d : Nat) :
    (t.connections d).thread = (s.connections d).thread := by
  by_cases hdc : d = c
  · rw [hdc, h.same.2]
  · rw [h.others d hdc]

theorem tail_of_not_linked {stage : Stage} (h : ¬ stage.role.Linked) : ∃ prev, stage = .tail prev := by
  cases stage with
  | tail prev => exact ⟨prev, rfl⟩
  | _ => exact absurd trivial h

theorem unlinked_freeNode {s : State} (hlist : IsList next head l) :
    Unlinked s ({ s with next, head }.freeNode c) c l where
  isList := hlist
  others d hd := by simp [State.freeNode, State.modify, hd]
  same := by simp [State.freeNode, State.modify]
  acceptor := rfl
  count := rfl
  crashed := rfl

theorem finish_unlink {s : State} (h : IsList s.next s.head (l₁ ++ c :: l₂))
    (hnodup : (l₁ ++ c :: l₂).Nodup)
    (hlive : ∀ b ∈ l₁ ++ c :: l₂, (s.connections b).freed = false) (fuel : Nat) :
    ∃ t, s.finish c (fuel + 2) (.unlink l₁.getLast?) = some t ∧ Unlinked s t c (l₁ ++ l₂) := by
  obtain ⟨next, head, stage, hunlink, hlinked, hleft⟩ := removeStep_unlink h hnodup hlive
  cases stage with
  | none =>
    refine ⟨{ s with next, head }.freeNode c, ?_, unlinked_freeNode hleft⟩
    simp only [State.finish, hunlink]
  | some stage =>
    obtain ⟨prev, rfl⟩ := tail_of_not_linked hlinked
    have hcut : c ∉ l₁ ++ l₂ := by
      rw [List.nodup_middle, List.nodup_cons] at hnodup
      exact hnodup.1
    have hrest : ∀ b ∈ l₁ ++ l₂, (({ s with next, head }.freeNode c).connections b).freed = false := by
      intro b hb
      have hbc : b ≠ c := fun hbc => hcut (hbc ▸ hb)
      have hmem : b ∈ l₁ ++ c :: l₂ := by
        rw [List.mem_append] at hb
        rcases hb with hb | hb <;> simp [hb]
      simpa [State.freeNode, State.modify, hbc] using hlive b hmem
    have hinside : Inside ({ s with next, head }.freeNode c).next ({ s with next, head }.freeNode c).head
        (l₁ ++ l₂) c (.tail prev) := hleft
    obtain ⟨next', head', htail, hlist⟩ := removeStep_tail hinside hrest
    refine ⟨{ s with next := next', head := head' }.freeNode c, ?_, unlinked_freeNode hlist⟩
    simp only [State.finish, hunlink, htail]
    rfl

theorem removeConnection_mem {s : State} (h : IsList s.next s.head (l₁ ++ c :: l₂))
    (hnodup : (l₁ ++ c :: l₂).Nodup)
    (hlive : ∀ b ∈ l₁ ++ c :: l₂, (s.connections b).freed = false)
    (hlength : (l₁ ++ c :: l₂).length ≤ s.count) :
    ∃ t, s.removeConnection c = some (t, 1) ∧ Unlinked s t c (l₁ ++ l₂) := by
  have hc : (s.connections c).freed = false := hlive c (by simp)
  obtain ⟨m, hl₁, rfl, -⟩ := seg_append.mp h
  have hnot : c ∉ l₁ := by
    rw [List.nodup_append] at hnodup
    exact fun hc => hnodup.2.2 c hc c List.mem_cons_self rfl
  have hfound : s.search c (s.count + 1) none s.head = .found l₁.getLast? := by
    have hfuel : l₁.length < s.count + 1 := by
      simp at hlength
      omega
    have hlive₁ (b : Nat) (hb : b ∈ l₁) : (s.connections b).freed = false :=
      hlive b (List.mem_append_left _ hb)
    rw [search_found hl₁ hlive₁ hnot hfuel, Option.or_none]
  -- from the freeing of the buffer on, in the state that the closing leaves
  have hbuffer (table : SlotTable.Table Desc) (uses : List Use) (fuel : Nat) :
      ∃ t, State.finish { s with table, uses } c (fuel + 3) (.freeBuffer l₁.getLast?) = some t ∧
        Unlinked s t c (l₁ ++ l₂) := by
    obtain ⟨t, ht, hu⟩ := finish_unlink
      (s := ({ s with table, uses } : State).modify c fun connection =>
        { connection with hasBuffer := false }) h hnodup (fun b hb => by
          by_cases hbc : b = c <;> simp [State.modify, hbc, hc, hlive b hb]) fuel
    refine ⟨t, ?_, ?_⟩
    · rw [State.finish]
      simp only [State.removeStep, hc, Bool.false_eq_true, if_false]
      exact ht
    · exact {
        isList := hu.isList
        others := fun d hd => (hu.others d hd).trans (by simp [State.modify, hd])
        same := ⟨hu.same.1.trans (by simp [State.modify]), hu.same.2.trans (by simp [State.modify])⟩
        acceptor := hu.acceptor
        count := hu.count
        crashed := hu.crashed }
  obtain ⟨t, ht, hu⟩ : ∃ t, s.finish c 5 .find = some t ∧ Unlinked s t c (l₁ ++ l₂) := by
    rw [State.finish]
    simp only [State.removeStep, hfound]
    cases hestablished : (s.connections c).established with
    | false => exact hbuffer s.table s.uses 1
    | true =>
      obtain ⟨t, ht, hu⟩ := hbuffer (s.useFd c .close).table (s.useFd c .close).uses 0
      refine ⟨t, ?_, hu⟩
      rw [if_pos rfl, State.finish]
      simp only [State.removeStep, hc, Bool.false_eq_true, if_false]
      exact ht
  refine ⟨t, ?_, hu⟩
  rw [State.removeConnection, ht, hfound]
  rfl

namespace Roster

-- ---------------------------------------------------------------------------
-- The invariant
-- ---------------------------------------------------------------------------

def Works (s : Socket.State) (c : Nat) : Prop :=
  s.acceptor.current = some c ∨ (s.connections c).thread.Active

def Phase (s : Socket.State) : Acceptor → Prop
  | .accepting c => (s.connections c).established = false
  | .clientData c | .create c => (s.connections c).established
  | .killRemoving .. => False
  | _ => True

structure Kept (s : Socket.State) (l : List Nat) : Prop where
  safe : s.crashed = false
  isList : IsList s.next s.head l
  order : l.Sublist (List.range s.count)
  live : ∀ c ∈ l, (s.connections c).freed = false
  mem : ∀ c, c ∈ l ↔ Works s c
  fresh : ∀ c, s.count ≤ c → s.connections c = .fresh
  phase : Phase s s.acceptor
  threads : ∀ c, (s.connections c).thread ≠ .notStarted →
    (s.connections c).established ∧ s.acceptor.current ≠ some c

structure Inv (s : State) (l : List Nat) : Prop where
  kept : Kept s.sys l
  results : ∀ r ∈ s.removals, r.2 = 1
  once : (s.removals.map (·.1)).Nodup
  removed : ∀ c, c ∈ s.removals.map (·.1) ↔ c < s.sys.count ∧ c ∉ l

theorem Kept.nodup (h : Kept s l) : l.Nodup := List.nodup_range.sublist h.order

theorem Kept.lt_count (h : Kept s l) (hc : c ∈ l) : c < s.count :=
  List.mem_range.mp (h.order.subset hc)

theorem Kept.length_le (h : Kept s l) : l.length ≤ s.count := by
  simpa using h.order.length_le

theorem active_ne_notStarted {thread : Thread} (h : thread.Active) : thread ≠ .notStarted := by
  rintro rfl
  exact h

theorem Kept.works_iff (h : Kept s l) (c : Nat) : Works s c ↔ Placeholder s c ∨ Unfinished s c := by
  constructor
  · intro hworks
    cases hestablished : (s.connections c).established with
    | true => exact .inr ⟨hestablished, hworks⟩
    | false =>
      refine .inl ⟨hworks.resolve_right fun hactive => ?_, hestablished⟩
      have hthread := (h.threads c (active_ne_notStarted hactive)).1
      rw [hestablished] at hthread
      contradiction
  · rintro (⟨hcurrent, -⟩ | ⟨-, hworks⟩)
    · exact .inl hcurrent
    · exact hworks

-- ---------------------------------------------------------------------------
-- The accept loop
-- ---------------------------------------------------------------------------

theorem phase_congr {acceptor : Acceptor}
    (h : ∀ c, (t.connections c).established = (s.connections c).established)
    (hphase : Phase s acceptor) : Phase t acceptor := by
  cases acceptor <;> simp_all [Phase]

theorem Kept.frame (h : Kept s l) (hsafe : t.crashed = false)
    (hlist : t.next = s.next ∧ t.head = s.head ∧ t.count = s.count)
    (hfreed : ∀ c, (t.connections c).freed = (s.connections c).freed)
    (hworks : ∀ c, Works t c ↔ Works s c) (hfresh : ∀ c, s.count ≤ c → t.connections c = .fresh)
    (hphase : Phase t t.acceptor)
    (hthreads : ∀ c, (t.connections c).thread ≠ .notStarted →
      (t.connections c).established ∧ t.acceptor.current ≠ some c) : Kept t l := by
  obtain ⟨hnext, hhead, hcount⟩ := hlist
  constructor
  · exact hsafe
  · rw [hnext, hhead]
    exact h.isList
  · rw [hcount]
    exact h.order
  · intro c hc
    rw [hfreed, h.live c hc]
  · intro c
    rw [h.mem, hworks]
  · rw [hcount]
    exact hfresh
  · exact hphase
  · exact hthreads

theorem Kept.setAcceptor (h : Kept s l) (hcurrent : acceptor.current = s.acceptor.current)
    (hphase : Phase s acceptor) : Kept { s with acceptor } l := by
  refine h.frame h.safe ⟨rfl, rfl, rfl⟩ (fun _ => rfl) (fun c => ?_) h.fresh ?_ fun c hc => ?_
  · simp only [Works, hcurrent]
  · exact phase_congr (fun _ => rfl) hphase
  · rw [hcurrent]
    exact h.threads c hc

theorem Kept.notStarted (h : Kept s l) (hcurrent : s.acceptor.current = some c) :
    (s.connections c).thread = .notStarted := by
  by_contra hthread
  exact (h.threads c hthread).2 hcurrent

theorem Kept.lt_of_current (h : Kept s l) (hcurrent : s.acceptor.current = some c) : c < s.count :=
  h.lt_count ((h.mem c).mpr (.inl hcurrent))

theorem Kept.memalloc (h : Kept s l) (hstep : stepMemalloc s true = some t) :
    Kept t (l ++ [s.count]) ∧ t.count = s.count + 1 := by
  have hfresh := h.fresh s.count (Nat.le_refl _)
  have hnot : s.count ∉ l := fun hc => Nat.lt_irrefl _ (h.lt_count hc)
  obtain ⟨hidle, next, head, rfl, hlist, hlive⟩ :=
    stepMemalloc_ok hstep hfresh h.isList h.nodup h.live hnot h.length_le
  refine ⟨⟨h.safe, hlist, ?_, hlive, ?_, ?_, ?_, ?_⟩, rfl⟩
  · rw [List.range_succ]
    exact h.order.append (List.Sublist.refl _)
  · intro c
    have hmem := h.mem c
    simp only [Works, hidle, Acceptor.current, reduceCtorEq, false_or] at hmem
    rw [List.mem_append, List.mem_singleton, hmem]
    simp only [Works, Acceptor.current, Option.some.injEq]
    exact ⟨fun hc => hc.elim .inr fun hc => .inl hc.symm, fun hc => hc.elim (.inr ·.symm) .inl⟩
  · exact fun c hc => h.fresh c ((Nat.le_succ _).trans hc)
  · exact congrArg Connection.established hfresh
  · intro c hc
    refine ⟨(h.threads c hc).1, fun hcurrent => hc ?_⟩
    obtain rfl : s.count = c := Option.some.inj hcurrent
    exact congrArg Connection.thread hfresh

theorem Kept.giveUp (h : Kept s l) (hstep : stepMemalloc s false = some t) :
    Kept t l ∧ t.count = s.count := by
  unfold stepMemalloc at hstep
  split at hstep
  case h_2 => contradiction
  case h_1 hidle =>
  obtain rfl := Option.some.inj hstep
  exact ⟨h.setAcceptor (by rw [hidle]; rfl) trivial, rfl⟩

theorem Kept.accept (h : Kept s l) (hstep : stepAccept s ok = some t) :
    Kept t l ∧ t.count = s.count := by
  unfold stepAccept at hstep
  split at hstep
  case h_2 => contradiction
  case h_1 c hacceptor =>
  have hcurrent : s.acceptor.current = some c := by rw [hacceptor]; rfl
  cases ok with
  | false =>
    obtain rfl := Option.some.inj hstep
    exact ⟨h.setAcceptor hcurrent.symm trivial, rfl⟩
  | true =>
    obtain rfl := Option.some.inj hstep
    have hthread := h.notStarted hcurrent
    refine ⟨h.frame h.safe ⟨rfl, rfl, rfl⟩ (fun d => ?_) (fun d => ?_) (fun d hd => ?_) ?_ fun d hd => ?_,
      rfl⟩
    · by_cases hdc : d = c <;> simp [State.modify, hdc]
    · by_cases hdc : d = c <;> simp [State.modify, Works, hdc, hacceptor, Acceptor.current]
    · have hdc : d ≠ c := fun hdc => absurd (h.lt_of_current hcurrent) (by omega)
      simpa [State.modify, hdc] using h.fresh d hd
    · simp [Phase, State.modify]
    · have hdc : d ≠ c := by
        rintro rfl
        simp [State.modify, hthread] at hd
      have hold := h.threads d (by simpa [State.modify, hdc] using hd)
      rw [hcurrent] at hold
      simpa [State.modify, hdc, Acceptor.current] using hold

theorem Kept.clientData (h : Kept s l) (hstep : stepClientData s ok = some t) :
    Kept t l ∧ t.count = s.count := by
  unfold stepClientData at hstep
  split at hstep
  case h_2 => contradiction
  case h_1 c hacceptor =>
  have hphase := h.phase
  rw [hacceptor] at hphase
  obtain rfl := Option.some.inj hstep
  cases ok with
  | false => exact ⟨h.setAcceptor (by rw [hacceptor]; rfl) trivial, rfl⟩
  | true => exact ⟨h.setAcceptor (by rw [hacceptor]; rfl) hphase, rfl⟩

theorem Kept.create (h : Kept s l) (hstep : stepCreate s ok = some t) :
    Kept t l ∧ t.count = s.count := by
  unfold stepCreate at hstep
  split at hstep
  case h_2 => contradiction
  case h_1 c hacceptor =>
  have hcurrent : s.acceptor.current = some c := by rw [hacceptor]; rfl
  have hphase := h.phase
  rw [hacceptor] at hphase
  have hestablished : (s.connections c).established := hphase
  cases ok with
  | false =>
    obtain rfl := Option.some.inj hstep
    exact ⟨h.setAcceptor hcurrent.symm trivial, rfl⟩
  | true =>
    obtain rfl := Option.some.inj hstep
    refine ⟨h.frame h.safe ⟨rfl, rfl, rfl⟩ (fun d => ?_) (fun d => ?_) (fun d hd => ?_) trivial
      fun d hd => ?_, rfl⟩
    · by_cases hdc : d = c <;> simp [hdc]
    · by_cases hdc : d = c
      · simp [Works, hdc, hacceptor, Acceptor.current, Thread.Active]
      · simp [Works, hdc, hacceptor, Acceptor.current, Ne.symm hdc]
    · have hdc : d ≠ c := fun hdc => absurd (h.lt_of_current hcurrent) (by omega)
      simpa [hdc] using h.fresh d hd
    · refine ⟨?_, by simp [Acceptor.current]⟩
      by_cases hdc : d = c
      · simpa [hdc] using hestablished
      · simpa [hdc] using (h.threads d (by simpa [hdc] using hd)).1

-- ---------------------------------------------------------------------------
-- The handlers
-- ---------------------------------------------------------------------------

theorem Kept.setThread (h : Kept s l) (hactive : (s.connections c).thread.Active) {thread : Thread}
    (hnew : thread.Active) : Kept (s.setThread c thread) l := by
  have hc := h.threads c (active_ne_notStarted hactive)
  refine h.frame h.safe ⟨rfl, rfl, rfl⟩ (fun d => ?_) (fun d => ?_) (fun d hd => ?_) ?_ fun d hd => ?_
  · by_cases hdc : d = c <;> simp [hdc]
  · by_cases hdc : d = c <;> simp [Works, hdc, hactive, hnew]
  · have hdc : d ≠ c := fun hdc =>
      absurd (h.lt_count ((h.mem c).mpr (.inr hactive))) (by omega)
    simpa [hdc] using h.fresh d hd
  · refine phase_congr (fun d => ?_) h.phase
    by_cases hdc : d = c <;> simp [hdc]
  · by_cases hdc : d = c
    · simpa [hdc] using hc
    · simpa [hdc] using h.threads d (by simpa [hdc] using hd)

theorem Kept.setBuffer (h : Kept s l) (hactive : (s.connections c).thread.Active) (hasBuffer : Bool) :
    Kept (s.modify c fun connection => { connection with hasBuffer }) l := by
  have hsame (d : Nat) :
      let connection := (s.modify c fun connection => { connection with hasBuffer }).connections d
      connection.freed = (s.connections d).freed ∧
        connection.established = (s.connections d).established ∧
        connection.thread = (s.connections d).thread := by
    by_cases hdc : d = c <;> simp [State.modify, hdc]
  refine h.frame h.safe ⟨rfl, rfl, rfl⟩ (fun d => (hsame d).1) (fun d => ?_) (fun d hd => ?_) ?_
    fun d hd => ?_
  · simp only [Works, hsame]
    rfl
  · have hdc : d ≠ c := fun hdc =>
      absurd (h.lt_count ((h.mem c).mpr (.inr hactive))) (by omega)
    simpa [State.modify, hdc] using h.fresh d hd
  · exact phase_congr (fun d => (hsame d).2.1) h.phase
  · rw [(hsame d).2.2] at hd
    rw [(hsame d).2.1]
    exact h.threads d hd

theorem Kept.reading (h : Kept s l) (hactive : (s.connections c).thread.Active) (t : Socket.State) :
    s.reading c t = t := by
  rw [State.reading, if_neg (by simp [h.live c ((h.mem c).mpr (.inr hactive))])]

theorem Kept.buffer (h : Kept s l) (hstep : stepBuffer s c ok = some t) :
    Kept t l ∧ t.count = s.count := by
  unfold stepBuffer at hstep
  split at hstep
  case h_2 => contradiction
  case h_1 hthread =>
  have hactive : (s.connections c).thread.Active := by rw [hthread]; trivial
  rw [h.reading hactive] at hstep
  obtain rfl := Option.some.inj hstep
  rw [modify_hasBuffer_thread]
  refine ⟨(h.setBuffer hactive ok).setThread ?_ ?_, rfl⟩
  · simpa [State.modify] using hactive
  · cases ok <;> trivial

theorem Kept.peek (h : Kept s l) (hstep : stepPeek s c got = some t) :
    Kept t l ∧ t.count = s.count := by
  unfold stepPeek at hstep
  split at hstep
  case h_2 => contradiction
  case h_1 hthread =>
  have hactive : (s.connections c).thread.Active := by rw [hthread]; trivial
  rw [h.reading hactive] at hstep
  obtain rfl := Option.some.inj hstep
  refine ⟨h.setThread hactive ?_, rfl⟩
  cases got <;> trivial

theorem Kept.callback (h : Kept s l) (hstep : stepCallback s c result = some t) :
    Kept t l ∧ t.count = s.count := by
  unfold stepCallback at hstep
  split at hstep
  case h_2 => contradiction
  case h_1 hthread =>
  have hactive : (s.connections c).thread.Active := by rw [hthread]; trivial
  rw [h.reading hactive] at hstep
  obtain rfl := Option.some.inj hstep
  refine ⟨h.setThread hactive ?_, rfl⟩
  split <;> trivial

-- ---------------------------------------------------------------------------
-- Removals
-- ---------------------------------------------------------------------------

/-- Who is about to call `remove_connection`, and for which connection. -/
theorem Kept.removal (h : Kept s l) (hremoval : s.removal a = some (c, stage)) :
    Works s c ∧ Removes s c stage a := by
  cases a with
  | none =>
    simp only [Socket.State.removal] at hremoval
    have hphase := h.phase
    split at hremoval
    case h_1 d stage' hacceptor =>
      obtain ⟨rfl, rfl⟩ := Prod.mk.inj (Option.some.inj hremoval)
      have hcurrent : s.acceptor.current = some d := by rw [hacceptor]; rfl
      exact ⟨.inl hcurrent, .acceptor hacceptor (h.notStarted hcurrent)⟩
    case h_2 hacceptor =>
      rw [hacceptor] at hphase
      exact hphase.elim
    case h_3 => contradiction
  | some d =>
    simp only [Socket.State.removal] at hremoval
    split at hremoval
    case h_1 hthread =>
      obtain ⟨rfl, rfl⟩ := Prod.mk.inj (Option.some.inj hremoval)
      exact ⟨.inr (by rw [hthread]; trivial), .thread hthread⟩
    case h_2 => contradiction

theorem Kept.setRemoval (h : Kept s (l₁ ++ c :: l₂)) (hr : Removes s c stage a)
    (hu : Unlinked s t c (l₁ ++ l₂)) : Kept (t.setRemoval a c none) (l₁ ++ l₂) := by
  have hnodup := h.nodup
  rw [List.nodup_middle, List.nodup_cons] at hnodup
  have hcut (d : Nat) : d ∈ l₁ ++ l₂ ↔ d ∈ l₁ ++ c :: l₂ ∧ d ≠ c := by
    constructor
    · intro hd
      refine ⟨?_, fun hdc => hnodup.1 (hdc ▸ hd)⟩
      rw [List.mem_append] at hd
      rcases hd with hd | hd <;> simp [hd]
    · rintro ⟨hd, hdc⟩
      simpa [hdc] using hd
  have hlt : c < s.count := h.lt_count (by simp)
  have hlive (d : Nat) (hd : d ∈ l₁ ++ l₂) : (t.connections d).freed = false := by
    obtain ⟨hmem, hdc⟩ := (hcut d).mp hd
    rw [hu.others d hdc, h.live d hmem]
  have horder : (l₁ ++ l₂).Sublist (List.range t.count) := by
    rw [hu.count]
    exact ((List.Sublist.refl l₁).append (List.sublist_cons_self c l₂)).trans h.order
  have hfresh (d : Nat) (hd : s.count ≤ d) : d ≠ c ∧ t.connections d = .fresh := by
    have hdc : d ≠ c := by omega
    exact ⟨hdc, (hu.others d hdc).trans (h.fresh d hd)⟩
  cases hr with
  | acceptor hacceptor hthread =>
    have hcurrent : s.acceptor.current = some c := by rw [hacceptor]; rfl
    constructor
    · exact hu.crashed.trans h.safe
    · exact hu.isList
    · exact horder
    · exact hlive
    · intro d
      rw [hcut, h.mem]
      simp only [Works, Socket.State.setRemoval, hacceptor, Acceptor.current, hu.thread,
        Option.some.injEq, reduceCtorEq, false_or]
      constructor
      · rintro ⟨hd, hdc⟩
        exact hd.resolve_left (Ne.symm hdc)
      · intro hd
        refine ⟨.inr hd, ?_⟩
        rintro rfl
        rw [hthread] at hd
        exact hd
    · intro d hd
      exact (hfresh d (hu.count ▸ hd)).2
    · trivial
    · intro d hd
      simp only [Socket.State.setRemoval, hu.thread] at hd
      refine ⟨(hu.established d).trans (h.threads d hd).1, by simp [Socket.State.setRemoval, Acceptor.current]⟩
  | thread hthread =>
    have hactive : (s.connections c).thread.Active := by rw [hthread]; trivial
    have hc := h.threads c (active_ne_notStarted hactive)
    constructor
    · exact hu.crashed.trans h.safe
    · exact hu.isList
    · exact horder
    · intro d hd
      have hdc := ((hcut d).mp hd).2
      simpa [Socket.State.setRemoval, hdc] using hlive d hd
    · intro d
      rw [hcut, h.mem]
      by_cases hdc : d = c
      · simp [Works, Socket.State.setRemoval, hdc, Thread.Active, hu.acceptor, hc.2]
      · simp [Works, Socket.State.setRemoval, hdc, hu.acceptor, hu.thread]
    · intro d hd
      obtain ⟨hdc, hnew⟩ := hfresh d (hu.count ▸ hd)
      simpa [Socket.State.setRemoval, hdc] using hnew
    · simp only [Socket.State.setRemoval, acceptor_setThread, hu.acceptor]
      refine phase_congr (fun d => ?_) h.phase
      rw [← hu.established d]
      by_cases hdc : d = c <;> simp [hdc]
    · intro d hd
      simp only [Socket.State.setRemoval, acceptor_setThread, hu.acceptor]
      by_cases hdc : d = c
      · simpa [hdc, hu.established] using hc
      · have hd : (s.connections d).thread ≠ .notStarted := by
          simpa [Socket.State.setRemoval, hdc, hu.thread] using hd
        simpa [hdc, hu.established] using h.threads d hd

theorem Kept.remove (h : Kept s l) (hremoval : s.removal a = some (c, stage)) :
    ∃ t l₁ l₂, s.removeConnection c = some (t, 1) ∧ l = l₁ ++ c :: l₂ ∧
      Unlinked s t c (l₁ ++ l₂) ∧ Kept (t.setRemoval a c none) (l₁ ++ l₂) := by
  obtain ⟨hworks, hremoves⟩ := h.removal hremoval
  obtain ⟨l₁, l₂, rfl⟩ := List.append_of_mem ((h.mem c).mpr hworks)
  obtain ⟨t, ht, hu⟩ := removeConnection_mem h.isList h.nodup h.live h.length_le
  exact ⟨t, l₁, l₂, ht, rfl, hu, h.setRemoval hremoves hu⟩

-- ---------------------------------------------------------------------------
-- Runs
-- ---------------------------------------------------------------------------

theorem Inv.listed (h : Inv s l) : Listed s l where
  isList := h.kept.isList
  order := h.kept.order
  mem c := by rw [h.kept.mem, h.kept.works_iff]
  results := h.results
  once := h.once
  removed := h.removed

theorem Inv.same (h : Inv s l) {next : Option Socket.State}
    (hkept : ∀ sys, next = some sys → Kept sys l ∧ sys.count = s.sys.count)
    (hstep : next.map (fun sys => { s with sys }) = some t) : Inv t l := by
  obtain ⟨sys, hsys, rfl⟩ := Option.map_eq_some_iff.mp hstep
  obtain ⟨hkept, hcount⟩ := hkept sys hsys
  refine ⟨hkept, h.results, h.once, ?_⟩
  rw [hcount]
  exact h.removed

theorem Inv.add (h : Inv s l) (hkept : Kept sys (l ++ [s.sys.count]))
    (hcount : sys.count = s.sys.count + 1) : Inv { s with sys } (l ++ [s.sys.count]) where
  kept := hkept
  results := h.results
  once := h.once
  removed c := by
    rw [hcount, List.mem_append, List.mem_singleton, h.removed]
    by_cases hc : c = s.sys.count
    · simp [hc]
    · have hlt : c < s.sys.count + 1 ↔ c < s.sys.count := by omega
      simp [hc, hlt]

theorem Inv.remove (h : Inv s l) (hstep : stepRemove s a = some t) :
    (∃ l', Inv t l') ∧ RemovesOne s t := by
  unfold stepRemove at hstep
  split at hstep
  case h_1 => contradiction
  case h_2 c stage hremoval =>
  obtain ⟨u, l₁, l₂, hcall, rfl, hu, hkept⟩ := h.kept.remove hremoval
  rw [hcall] at hstep
  obtain rfl := Option.some.inj hstep
  have hnodup := h.kept.nodup
  rw [List.nodup_middle, List.nodup_cons] at hnodup
  have hnew : c ∉ s.removals.map (·.1) := by
    rw [h.removed]
    simp
  have hcount : (u.setRemoval a c none).count = s.sys.count := by
    cases a <;> exact hu.count
  have hpointers : (u.setRemoval a c none).next = u.next ∧ (u.setRemoval a c none).head = u.head := by
    cases a <;> exact ⟨rfl, rfl⟩
  refine ⟨⟨l₁ ++ l₂, hkept, ?_, ?_, ?_⟩, c, l₁, l₂, h.kept.isList, ?_, rfl, ?_⟩
  · intro r hr
    rcases List.mem_append.mp hr with hr | hr
    · exact h.results r hr
    · rw [List.mem_singleton.mp hr]
  · rw [List.map_append, List.map_singleton, List.nodup_append]
    refine ⟨h.once, List.nodup_singleton c, ?_⟩
    rintro d hd _ hc rfl
    obtain rfl : d = c := List.mem_singleton.mp hc
    exact hnew hd
  · intro d
    rw [hcount, List.map_append, List.mem_append, h.removed]
    by_cases hdc : d = c
    · simp [hdc, hnodup.1, h.kept.lt_count (c := c) (by simp)]
    · simp [hdc]
  · rw [hpointers.1, hpointers.2]
    exact hu.isList
  · intro d hd
    cases a with
    | none => exact hu.others d hd
    | some _ => simpa [Socket.State.setRemoval, hd] using hu.others d hd

theorem inv_step (h : ∃ l, Inv s l) (hstep : step s lab = some t) : ∃ l, Inv t l := by
  obtain ⟨l, h⟩ := h
  unfold step at hstep
  rw [if_neg (by simp [h.kept.safe])] at hstep
  cases lab with
  | memalloc ok =>
    cases ok with
    | true =>
      obtain ⟨sys, hsys, rfl⟩ := Option.map_eq_some_iff.mp hstep
      obtain ⟨hkept, hcount⟩ := h.kept.memalloc hsys
      exact ⟨_, h.add hkept hcount⟩
    | false => exact ⟨l, h.same (fun _ => h.kept.giveUp) hstep⟩
  | accept ok => exact ⟨l, h.same (fun _ => h.kept.accept) hstep⟩
  | clientData ok => exact ⟨l, h.same (fun _ => h.kept.clientData) hstep⟩
  | create ok => exact ⟨l, h.same (fun _ => h.kept.create) hstep⟩
  | buffer c ok => exact ⟨l, h.same (fun _ => h.kept.buffer) hstep⟩
  | peek c got => exact ⟨l, h.same (fun _ => h.kept.peek) hstep⟩
  | callback c result => exact ⟨l, h.same (fun _ => h.kept.callback) hstep⟩
  | remove a => exact (h.remove hstep).1

theorem inv_begin (others : List Bool) : Inv (begin others) [] where
  kept :=
    { safe := rfl
      isList := rfl
      order := List.nil_sublist _
      live := by simp
      mem := fun c => by simp [Works, begin, initial, Acceptor.current, Connection.fresh, Thread.Active]
      fresh := fun _ _ => rfl
      phase := trivial
      threads := fun c hc => absurd rfl hc }
  results := by simp [begin]
  once := List.nodup_nil
  removed c := by simp [begin, initial]

/-- In every reachable state the list is as described, and the next removal
takes out one connection and returns 1. -/
theorem listed_of_run {others : List Bool} (hrun : Runs.run step (begin others) ls = some s) :
    s.sys.crashed = false ∧ (∃ l, Listed s l) ∧
      ∀ a t, step s (.remove a) = some t → RemovesOne s t := by
  obtain ⟨l, h⟩ : ∃ l, Inv s l :=
    Runs.invariant (I := fun s => ∃ l, Inv s l) (fun _ _ _ hi hs => inv_step hi hs) hrun
      ⟨[], inv_begin others⟩
  refine ⟨h.kept.safe, ⟨l, h.listed⟩, fun a t hstep => ?_⟩
  unfold step at hstep
  rw [if_neg (by simp [h.kept.safe])] at hstep
  exact (h.remove hstep).2

def threeClients : List Label :=
  [.memalloc true, .accept true, .clientData true, .create true, .memalloc true, .accept true,
    .clientData true, .create true, .memalloc true, .accept true, .clientData true, .create true,
    .buffer 0 true, .buffer 1 true, .buffer 2 false, .peek 1 false, .memalloc true,
    .remove (some 1), .remove (some 2), .peek 0 true, .callback 0 0]

theorem listed_threeClients :
    ∃ s, Runs.run step (begin []) threeClients = some s ∧ s.removals = [(1, 1), (2, 1)] ∧
      s.sys.crashed = false ∧ (∃ l, Listed s l) ∧
      ∀ a t, step s (.remove a) = some t → RemovesOne s t := by
  have hremovals : (Runs.run step (begin []) threeClients).map (·.removals) =
      some [(1, 1), (2, 1)] := by
    decide +kernel
  obtain ⟨s, hrun, hs⟩ := Option.map_eq_some_iff.mp hremovals
  exact ⟨s, hrun, hs, listed_of_run hrun⟩

end Roster

end GeoNS.Socket
