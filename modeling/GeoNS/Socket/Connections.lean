import GeoNS.LinkedList
import GeoNS.Socket.Server

/-!
# The list of connections

As long as no thread comes to the list while another one is inside
`remove_connection`, its nodes are the connections some thread works for, none
of them is freed, and every walk finds what it looks for.
-/

namespace GeoNS.Socket

open LinkedList

-- ---------------------------------------------------------------------------
-- Roles
-- ---------------------------------------------------------------------------

/-- What the thread that works for a connection does with it: it waits for the
socket, has it, has yet to find out whether there is one, has left it, or has
its node unlinked. -/
inductive Role
  | none
  | waiting
  | holding
  | finding
  | leaving
  | unlinked
  deriving DecidableEq, Repr

/-- The node is in the list. -/
def Role.Linked : Role → Prop
  | .none | .unlinked => False
  | _ => True

def Stage.role : Stage → Role
  | .find => .finding
  | .close _ => .holding
  | .freeBuffer _ | .unlink _ => .leaving
  | .tail _ => .unlinked

def Acceptor.role (a : Acceptor) (c : Nat) : Role :=
  match a with
  | .accepting d => if d = c then .waiting else .none
  | .clientData d | .create d => if d = c then .holding else .none
  | .removing d stage | .killRemoving d stage _ => if d = c then stage.role else .none
  | _ => .none

def Thread.role : Thread → Role
  | .notStarted | .ended => .none
  | .buffer | .peek | .callback | .calling .. => .holding
  | .removing stage => stage.role

/-- The accept thread works for a connection until its own thread starts. -/
def State.role (s : State) (c : Nat) : Role :=
  if (s.connections c).thread = .notStarted then s.acceptor.role c else (s.connections c).thread.role

-- ---------------------------------------------------------------------------
-- Removals
-- ---------------------------------------------------------------------------

/-- Where a thread is in `remove_connection`; `none` is the accept thread. -/
def State.removal (s : State) : Option Nat → Option (Nat × Stage)
  | none =>
    match s.acceptor with
    | .removing c stage | .killRemoving c stage _ => some (c, stage)
    | _ => none
  | some c =>
    match (s.connections c).thread with
    | .removing stage => some (c, stage)
    | _ => none

def State.Outside (s : State) (a : Option Nat) : Prop := ∀ r ∈ s.removal a, r.2 = .find

instance (s : State) (a : Option Nat) : Decidable (s.Outside a) := by
  unfold State.Outside
  infer_instance

def State.NoRemoval (s : State) : Prop := s.Outside none ∧ ∀ c < s.count, s.Outside (some c)

instance (s : State) : Decidable s.NoRemoval := inferInstanceAs (Decidable (_ ∧ _))

-- ---------------------------------------------------------------------------
-- The invariant
-- ---------------------------------------------------------------------------

/-- What a removal knows about the list, with the node of `c` in it until it is
unlinked. -/
def Inside (next : Nat → Option Nat) (head : Option Nat) (l : List Nat) (c : Nat) : Stage → Prop
  | .find => False
  | .close prev | .freeBuffer prev | .unlink prev =>
    IsList next head l ∧ ∃ l₁ l₂, l = l₁ ++ c :: l₂ ∧ l₁.getLast? = prev
  | .tail none => l = []
  | .tail (some p) => (∃ l₁, l = l₁ ++ [p]) ∧ IsList (Function.update next p none) head l

/-- At most one thread is inside a removal, and the list is whole or as that
removal has it. -/
inductive Shape (s : State) (l : List Nat) : Prop
  | whole (hout : ∀ a, s.Outside a) (hlist : IsList s.next s.head l)
  | inside (a : Option Nat) (c : Nat) (stage : Stage) (hremoval : s.removal a = some (c, stage))
      (hout : ∀ b, b ≠ a → s.Outside b) (hinside : Inside s.next s.head l c stage)

structure ListOk (s : State) (l : List Nat) : Prop where
  nodup : l.Nodup
  mem : ∀ c, c ∈ l ↔ (s.role c).Linked
  live : ∀ c ∈ l, (s.connections c).freed = false
  shape : Shape s l

theorem State.Outside.congr (h : s.Outside a) (hremoval : State.removal t a = State.removal s a) :
    t.Outside a := by
  unfold State.Outside
  rwa [hremoval]

theorem ListOk.frame (h : ListOk s l) (hnext : t.next = s.next) (hhead : t.head = s.head)
    (hfreed : ∀ c, (t.connections c).freed = (s.connections c).freed)
    (hrole : ∀ c, (t.role c).Linked ↔ (s.role c).Linked)
    (hremoval : ∀ a, t.removal a = s.removal a ∨ s.Outside a ∧ t.Outside a) : ListOk t l := by
  have hout {a : Option Nat} (ha : s.Outside a) : t.Outside a := by
    rcases hremoval a with hsame | ⟨-, houtside⟩
    · exact ha.congr hsame
    · exact houtside
  constructor
  · exact h.nodup
  · intro c
    rw [h.mem, hrole]
  · intro c hc
    rw [hfreed, h.live c hc]
  · cases h.shape with
    | whole houtside hlist =>
      refine .whole (fun a => hout (houtside a)) ?_
      rwa [hnext, hhead]
    | inside a c stage ha hothers hinside =>
      refine .inside a c stage ?_ (fun b hb => hout (hothers b hb)) ?_
      · rcases hremoval a with hsame | ⟨houtside, -⟩
        · rw [hsame, ha]
        · obtain rfl : stage = .find := houtside _ ha
          exact hinside.elim
      · rwa [hnext, hhead]

-- ---------------------------------------------------------------------------
-- Walks
-- ---------------------------------------------------------------------------

theorem ListOk.length_le (h : ListOk s l) (hborn : ∀ c, (s.role c).Linked → c < s.count) :
    l.length ≤ s.count := by
  have hsub : l ⊆ List.range s.count := by
    intro c hc
    exact List.mem_range.mpr (hborn c ((h.mem c).mp hc))
  simpa using (h.nodup.subperm hsub).length_le

/-- The walk of `remove_connection` ends at the node, with the one before it. -/
theorem search_found {s : State} (h : Seg s.next p l (some c))
    (hlive : ∀ b ∈ l, (s.connections b).freed = false) (hc : c ∉ l) (hfuel : l.length < fuel) :
    s.search c fuel prev p = .found (l.getLast?.or prev) := by
  induction l generalizing p prev fuel with
  | nil =>
    obtain ⟨fuel, rfl⟩ := Nat.exists_eq_succ_of_ne_zero (Nat.ne_of_gt hfuel)
    rw [show p = some c from h, State.search, if_pos rfl]
    rfl
  | cons a l ih =>
    obtain ⟨rfl, hl⟩ := h
    obtain ⟨fuel, rfl⟩ := Nat.exists_eq_succ_of_ne_zero (Nat.ne_of_gt (Nat.zero_lt_of_lt hfuel))
    have hac : a ≠ c := fun hac => hc (hac ▸ List.mem_cons_self)
    have ha : (s.connections a).freed = false := hlive a List.mem_cons_self
    rw [State.search, if_neg hac, if_neg (by simp [ha]),
      ih hl (fun b hb => hlive b (List.mem_cons_of_mem a hb))
        (fun hmem => hc (List.mem_cons_of_mem a hmem)) (Nat.lt_of_succ_lt_succ hfuel)]
    cases hlast : l.getLast? with
    | none => simp [List.getLast?_cons, hlast]
    | some b => simp [List.getLast?_cons, hlast]

/-- The walk of `add_connection` ends at the last node. -/
theorem lastNode_eq {s : State} (h : IsList s.next (some a) (l ++ [z]))
    (hlive : ∀ b ∈ l ++ [z], (s.connections b).freed = false) (hfuel : l.length < fuel) :
    s.lastNode fuel a = some z := by
  induction l generalizing a fuel with
  | nil =>
    obtain ⟨fuel, rfl⟩ := Nat.exists_eq_succ_of_ne_zero (Nat.ne_of_gt hfuel)
    obtain ⟨ha, hz⟩ := h
    obtain rfl := Option.some.inj ha
    have hnext : s.next a = none := hz
    rw [State.lastNode, if_neg (by simp [hlive a (by simp)]), hnext]
  | cons b l ih =>
    obtain ⟨fuel, rfl⟩ := Nat.exists_eq_succ_of_ne_zero (Nat.ne_of_gt (Nat.zero_lt_of_lt hfuel))
    obtain ⟨ha, hl⟩ := h
    obtain rfl := Option.some.inj ha
    rw [State.lastNode, if_neg (by simp [hlive a (by simp)])]
    cases hnext : s.next a with
    | none =>
      rw [hnext] at hl
      simpa using seg_null hl
    | some b =>
      rw [hnext] at hl
      exact ih hl (fun d hd => hlive d (List.mem_cons_of_mem a hd)) (Nat.lt_of_succ_lt_succ hfuel)

theorem ListOk.isList (h : ListOk s l) (hout : ∀ a, s.Outside a) : IsList s.next s.head l := by
  cases h.shape with
  | whole _ hlist => exact hlist
  | inside a c stage ha _ hinside =>
    obtain rfl : stage = .find := hout a _ ha
    exact hinside.elim

theorem ListOk.inside (h : ListOk s l) (hremoval : s.removal a = some (c, stage))
    (hstage : stage ≠ .find) : (∀ b, b ≠ a → s.Outside b) ∧ Inside s.next s.head l c stage := by
  have hnot : ¬ s.Outside a := fun hout => hstage (hout _ hremoval)
  cases h.shape with
  | whole hout _ => exact absurd (hout a) hnot
  | inside a' c' stage' ha hout hinside =>
    by_cases heq : a = a'
    · rw [heq, ha] at hremoval
      obtain ⟨rfl, rfl⟩ := Prod.mk.inj (Option.some.inj hremoval)
      rw [heq]
      exact ⟨hout, hinside⟩
    · exact absurd (hout a heq) hnot

-- ---------------------------------------------------------------------------
-- Changes
-- ---------------------------------------------------------------------------

theorem addConnection_ok {s : State} (h : IsList s.next s.head l) (hnodup : l.Nodup)
    (hlive : ∀ b ∈ l, (s.connections b).freed = false) (hc : c ∉ l) (hlength : l.length ≤ s.count) :
    ∃ next head, s.addConnection c = some { s with next, head } ∧ IsList next head (l ++ [c]) := by
  cases hhead : s.head with
  | none =>
    rw [hhead] at h
    obtain rfl := seg_null h
    refine ⟨Function.update s.next c none, some c, ?_, by simp [IsList, Seg]⟩
    simp only [State.addConnection, hhead]
  | some a =>
    rw [hhead] at h
    rcases l.eq_nil_or_concat' with rfl | ⟨l, z, rfl⟩
    · simp [IsList, Seg] at h
    have hz : z ∉ l := by
      rw [List.nodup_append] at hnodup
      exact fun hz => hnodup.2.2 z hz z List.mem_cons_self rfl
    have hupdated : IsList (Function.update s.next c none) (some a) (l ++ [z]) :=
      (seg_update hc none).mpr h
    have hlast : State.lastNode { s with next := Function.update s.next c none, head := some a }
        (s.count + 1) a = some z :=
      lastNode_eq hupdated hlive (by simp at hlength; omega)
    refine ⟨_, some a, ?_, isList_append_last h hz hc⟩
    simp only [State.addConnection, hhead, hlast, Option.map_some]

theorem removeStep_find (h : ListOk s l) (hout : ∀ a, s.Outside a) (hc : c ∈ l)
    (hlength : l.length ≤ s.count) :
    ∃ prev, s.removeStep c .find =
        some (s, some (if (s.connections c).established then .close prev else .freeBuffer prev)) ∧
      Inside s.next s.head l c (.unlink prev) := by
  obtain ⟨l₁, l₂, rfl⟩ := List.append_of_mem hc
  obtain ⟨m, hl₁, rfl, -⟩ := seg_append.mp (h.isList hout)
  have hnot : c ∉ l₁ := by
    have hnodup := h.nodup
    rw [List.nodup_append] at hnodup
    exact fun hc => hnodup.2.2 c hc c List.mem_cons_self rfl
  have hlive (b : Nat) (hb : b ∈ l₁) : (s.connections b).freed = false :=
    h.live b (List.mem_append_left _ hb)
  have hfound : s.search c (s.count + 1) none s.head = .found (l₁.getLast?.or none) :=
    search_found hl₁ hlive hnot (by simp at hlength; omega)
  refine ⟨l₁.getLast?, ?_, h.isList hout, l₁, l₂, rfl, rfl⟩
  simp only [State.removeStep, hfound, Option.or_none]

def Left (next : Nat → Option Nat) (head : Option Nat) (l : List Nat) (c : Nat) : Option Stage → Prop
  | none => IsList next head l
  | some stage => Inside next head l c stage

def roleAfter (stage : Option Stage) : Role := stage.elim .none Stage.role

theorem removeStep_unlink {s : State} (h : IsList s.next s.head (l₁ ++ c :: l₂))
    (hnodup : (l₁ ++ c :: l₂).Nodup)
    (hlive : ∀ b ∈ l₁ ++ c :: l₂, (s.connections b).freed = false) :
    ∃ next head stage, s.removeStep c (.unlink l₁.getLast?) =
        some ({ s with next, head }.freeNode c, stage) ∧
      ¬ (roleAfter stage).Linked ∧ Left next head (l₁ ++ l₂) c stage := by
  have hc : (s.connections c).freed = false := hlive c (by simp)
  obtain ⟨m, hl₁, rfl, hl₂⟩ := seg_append.mp h
  rcases l₁.eq_nil_or_concat with rfl | ⟨l, p, rfl⟩
  · replace hl₁ : s.head = some c := hl₁
    cases hnext : s.next c with
    | none =>
      rw [hnext] at hl₂
      obtain rfl := seg_null hl₂
      refine ⟨s.next, s.head, some (.tail none), ?_, id, rfl⟩
      show _ = some (s.freeNode c, some (Stage.tail none))
      simp [State.removeStep, hc, hnext, hl₁]
    | some q =>
      rw [hnext] at hl₂
      refine ⟨s.next, some q, none, ?_, id, hl₂⟩
      simp [State.removeStep, hc, hnext]
  · have hp : (s.connections p).freed = false := hlive p (by simp)
    have hlast : (l ++ [p]).getLast? = some p := List.getLast?_concat
    rw [List.concat_eq_append] at *
    have hunlinked : IsList (Function.update s.next p (s.next c)) s.head (l ++ [p] ++ l₂) := by
      simp only [List.nodup_append, List.nodup_cons, List.mem_append, List.mem_cons] at hnodup
      refine isList_unlink h (fun hmem => ?_) (fun hmem => ?_)
      · exact hnodup.1.2.2 p hmem p (.inl rfl) rfl
      · exact hnodup.2.2 p (.inr (.inl rfl)) p (.inr hmem) rfl
    cases hnext : s.next c with
    | none =>
      rw [hnext] at hl₂ hunlinked
      obtain rfl := seg_null hl₂
      refine ⟨s.next, s.head, some (.tail (some p)), ?_, id, ⟨l, by simp⟩, hunlinked⟩
      simp [State.removeStep, hc, hnext, hlast]
    | some q =>
      rw [hnext] at hunlinked
      refine ⟨Function.update s.next p (some q), s.head, none, ?_, id, hunlinked⟩
      simp [State.removeStep, hc, hp, hnext, hlast]

theorem removeStep_tail {s : State} (h : Inside s.next s.head l c (.tail prev))
    (hlive : ∀ b ∈ l, (s.connections b).freed = false) :
    ∃ next head, s.removeStep c (.tail prev) = some ({ s with next, head }, none) ∧
      IsList next head l := by
  cases prev with
  | none =>
    obtain rfl : l = [] := h
    exact ⟨s.next, none, rfl, rfl⟩
  | some p =>
    obtain ⟨⟨l₁, rfl⟩, hlist⟩ := h
    have hp : (s.connections p).freed = false := hlive p (by simp)
    refine ⟨_, s.head, ?_, hlist⟩
    simp [State.removeStep, hp]

-- ---------------------------------------------------------------------------
-- Removals, step by step
-- ---------------------------------------------------------------------------

def State.setRemoval (s : State) (a : Option Nat) (c : Nat) (stage : Option Stage) : State :=
  match a, stage with
  | none, some stage => { s with acceptor := .removing c stage }
  | none, none => { s with acceptor := .idle }
  | some _, some stage => s.setThread c (.removing stage)
  | some _, none => s.setThread c .ended

/-- The accept thread removes a connection that has no thread yet, and a thread
its own one. -/
inductive Removes (s : State) (c : Nat) (stage : Stage) : Option Nat → Prop
  | acceptor (hacceptor : s.acceptor = .removing c stage)
      (hthread : (s.connections c).thread = .notStarted) : Removes s c stage none
  | thread (hthread : (s.connections c).thread = .removing stage) : Removes s c stage (some c)

theorem Removes.removal (h : Removes s c stage a) : s.removal a = some (c, stage) := by
  cases h with
  | acceptor hacceptor => simp [State.removal, hacceptor]
  | thread hthread => simp [State.removal, hthread]

theorem Removes.role (h : Removes s c stage a) : s.role c = stage.role := by
  cases h with
  | acceptor hacceptor hthread => simp [State.role, hthread, hacceptor, Acceptor.role]
  | thread hthread => simp [State.role, hthread, Thread.role]

/-- `t` is `s` with other data: every thread is where it was. -/
structure SameThreads (s t : State) : Prop where
  acceptor : t.acceptor = s.acceptor
  thread : ∀ c, (t.connections c).thread = (s.connections c).thread

theorem SameThreads.refl (s : State) : SameThreads s s := ⟨rfl, fun _ => rfl⟩

theorem SameThreads.role (h : SameThreads s t) (c : Nat) : t.role c = s.role c := by
  simp only [State.role, h.acceptor, h.thread]

theorem SameThreads.removal (h : SameThreads s t) (a : Option Nat) : t.removal a = s.removal a := by
  cases a <;> simp only [State.removal, h.acceptor, h.thread]

theorem SameThreads.removes (h : SameThreads s t) (hr : Removes s c stage a) : Removes t c stage a := by
  cases hr with
  | acceptor hacceptor hthread =>
    exact .acceptor (h.acceptor.trans hacceptor) ((h.thread c).trans hthread)
  | thread hthread => exact .thread ((h.thread c).trans hthread)

@[simp] theorem connections_setThread (s : State) (c : Nat) (thread : Thread) (d : Nat) :
    (s.setThread c thread).connections d =
      if d = c then { s.connections c with thread } else s.connections d := by
  simp [State.setThread, State.modify, Function.update_apply]

@[simp] theorem acceptor_setThread (s : State) (c : Nat) (thread : Thread) :
    (s.setThread c thread).acceptor = s.acceptor := rfl

theorem role_setThread (s : State) (c : Nat) (thread : Thread) (d : Nat) :
    (s.setThread c thread).role d =
      if d = c then (if thread = .notStarted then s.acceptor.role c else thread.role) else s.role d := by
  by_cases hd : d = c <;> simp [State.role, hd]

theorem removal_setThread (s : State) (c : Nat) (thread : Thread) (a : Option Nat) (ha : a ≠ some c) :
    (s.setThread c thread).removal a = s.removal a := by
  cases a with
  | none => rfl
  | some d =>
    have hd : d ≠ c := fun hd => ha (by rw [hd])
    simp [State.removal, hd]

theorem modify_hasBuffer_thread (s : State) (c : Nat) (hasBuffer : Bool) (thread : Thread) :
    (s.modify c fun connection => { connection with hasBuffer, thread }) =
      (s.modify c fun connection => { connection with hasBuffer }).setThread c thread := by
  simp [State.setThread, State.modify]

theorem Removes.role_setRemoval (h : Removes s c stage a) (after : Option Stage) (d : Nat) :
    (s.setRemoval a c after).role d = if d = c then roleAfter after else s.role d := by
  cases h with
  | acceptor hacceptor hthread =>
    by_cases hd : d = c
    · cases after <;> simp [State.setRemoval, State.role, hd, hthread, Acceptor.role, roleAfter]
    · have hcd : c ≠ d := Ne.symm hd
      have hrole : (s.setRemoval none c after).acceptor.role d = s.acceptor.role d := by
        cases after <;> simp [State.setRemoval, hacceptor, Acceptor.role, hcd]
      cases after <;> rw [if_neg hd, State.role, hrole] <;> rfl
  | thread hthread => cases after <;> simp [State.setRemoval, role_setThread, Thread.role, roleAfter]

theorem Removes.removal_setRemoval (h : Removes s c stage a) (after : Option Stage) :
    (s.setRemoval a c after).removal a = after.map (c, ·) := by
  cases h with
  | acceptor => cases after <;> rfl
  | thread => cases after <;> simp [State.setRemoval, State.removal]

theorem removal_setRemoval_of_ne (s : State) (c : Nat) (after : Option Stage) (h : Removes s c stage a)
    (hb : b ≠ a) : (s.setRemoval a c after).removal b = s.removal b := by
  cases h with
  | acceptor =>
    cases b with
    | none => contradiction
    | some d => cases after <;> rfl
  | thread => cases after <;> exact removal_setThread s c _ b hb

theorem ListOk.setRemoval (h : ListOk s l) (hr : Removes s c stage a)
    (hout : ∀ b, b ≠ a → s.Outside b) (hsame : SameThreads s t) (hnodup : l'.Nodup)
    (hmem : ∀ d, d ≠ c → (d ∈ l' ↔ d ∈ l)) (hc : c ∈ l' ↔ (roleAfter after).Linked)
    (hlive : ∀ d ∈ l', (t.connections d).freed = false) (hleft : Left t.next t.head l' c after) :
    ListOk (t.setRemoval a c after) l' := by
  have hremoves := hsame.removes hr
  have hothers (b : Option Nat) (hb : b ≠ a) : (t.setRemoval a c after).Outside b :=
    (hout b hb).congr ((removal_setRemoval_of_ne t c after hremoves hb).trans (hsame.removal b))
  have hafter := hremoves.removal_setRemoval after
  have hfreed (d : Nat) : ((t.setRemoval a c after).connections d).freed = (t.connections d).freed := by
    by_cases hd : d = c <;> cases a <;> cases after <;> simp [State.setRemoval, hd]
  have hpointers : (t.setRemoval a c after).next = t.next ∧ (t.setRemoval a c after).head = t.head := by
    cases a <;> cases after <;> exact ⟨rfl, rfl⟩
  constructor
  · exact hnodup
  · intro d
    rw [hremoves.role_setRemoval]
    by_cases hd : d = c
    · rw [if_pos hd, hd, hc]
    · rw [if_neg hd, hsame.role, hmem d hd, h.mem]
  · intro d hd
    rw [hfreed, hlive d hd]
  · cases after with
    | none =>
      refine .whole (fun b => ?_) ?_
      · by_cases hb : b = a
        · rw [hb, State.Outside, hafter]
          rintro r hr
          contradiction
        · exact hothers b hb
      · rw [hpointers.1, hpointers.2]
        exact hleft
    | some stage =>
      refine .inside a c stage hafter hothers ?_
      rw [hpointers.1, hpointers.2]
      exact hleft

-- ---------------------------------------------------------------------------
-- The list through a removal
-- ---------------------------------------------------------------------------

theorem Removes.mem (h : ListOk s l) (hr : Removes s c stage a) (hstage : stage.role.Linked) : c ∈ l := by
  rw [h.mem, hr.role]
  exact hstage

theorem ListOk.find (h : ListOk s l) (hr : Removes s c .find a) (hout : ∀ b, s.Outside b)
    (hlength : l.length ≤ s.count) :
    ∃ stage, s.removeStep c .find = some (s, some stage) ∧
      stage.role = (if (s.connections c).established then .holding else .leaving) ∧
      ListOk (s.setRemoval a c (some stage)) l := by
  have hc : c ∈ l := hr.mem h trivial
  obtain ⟨prev, hfound, hinside⟩ := removeStep_find h hout hc hlength
  refine ⟨_, hfound, ?_, ?_⟩
  · split <;> rfl
  · refine h.setRemoval hr (fun b _ => hout b) (.refl s) h.nodup (fun _ _ => Iff.rfl) ?_ h.live ?_
    · refine iff_of_true hc ?_
      split <;> trivial
    · split <;> exact hinside

theorem ListOk.close (h : ListOk s l) (hr : Removes s c (.close prev) a) :
    s.removeStep c (.close prev) = some (s.useFd c .close, some (.freeBuffer prev)) ∧
      ListOk ((s.useFd c .close).setRemoval a c (some (.freeBuffer prev))) l := by
  have hc : c ∈ l := hr.mem h trivial
  obtain ⟨hout, hinside⟩ := h.inside hr.removal (by simp)
  refine ⟨if_neg (by simp [h.live c hc]), ?_⟩
  exact h.setRemoval hr hout ⟨rfl, fun _ => rfl⟩ h.nodup (fun _ _ => Iff.rfl) (iff_of_true hc trivial)
    h.live hinside

theorem ListOk.freeBuffer (h : ListOk s l) (hr : Removes s c (.freeBuffer prev) a) :
    let t := s.modify c fun connection => { connection with hasBuffer := false }
    s.removeStep c (.freeBuffer prev) = some (t, some (.unlink prev)) ∧
      ListOk (t.setRemoval a c (some (.unlink prev))) l := by
  have hc : c ∈ l := hr.mem h trivial
  obtain ⟨hout, hinside⟩ := h.inside hr.removal (by simp)
  have hsame (d : Nat) :
      let connection := (s.modify c fun connection => { connection with hasBuffer := false }).connections d
      connection.freed = (s.connections d).freed ∧ connection.thread = (s.connections d).thread := by
    by_cases hd : d = c <;> simp [State.modify, hd]
  refine ⟨if_neg (by simp [h.live c hc]), ?_⟩
  exact h.setRemoval hr hout ⟨rfl, fun d => (hsame d).2⟩ h.nodup (fun _ _ => Iff.rfl)
    (iff_of_true hc trivial) (fun d hd => (hsame d).1.trans (h.live d hd)) hinside

theorem sameThreads_freeNode (s : State) (next : Nat → Option Nat) (head : Option Nat) (c : Nat) :
    SameThreads s ({ s with next, head }.freeNode c) := by
  refine ⟨rfl, fun d => ?_⟩
  by_cases hd : d = c <;> simp [State.freeNode, State.modify, hd]

theorem ListOk.unlink (h : ListOk s l) (hr : Removes s c (.unlink prev) a) :
    (prev = none → s.head = some c) ∧
      ∃ next head after l', s.removeStep c (.unlink prev) =
          some ({ s with next, head }.freeNode c, after) ∧
        ¬ (roleAfter after).Linked ∧
        ListOk (({ s with next, head }.freeNode c).setRemoval a c after) l' := by
  obtain ⟨hout, hlist, l₁, l₂, rfl, rfl⟩ := h.inside hr.removal (by simp)
  have hhead : l₁.getLast? = none → s.head = some c := by
    intro hnone
    obtain rfl := List.getLast?_eq_none_iff.mp hnone
    exact hlist.1
  obtain ⟨next, head, after, hunlink, hlinked, hleft⟩ := removeStep_unlink hlist h.nodup h.live
  refine ⟨hhead, next, head, after, l₁ ++ l₂, hunlink, hlinked, ?_⟩
  have hnodup := h.nodup
  rw [List.nodup_middle, List.nodup_cons] at hnodup
  refine h.setRemoval hr hout (sameThreads_freeNode s next head c) hnodup.2 (fun d hd => ?_)
    (iff_of_false hnodup.1 hlinked) (fun d hd => ?_) hleft
  · simp [hd]
  · have hdc : d ≠ c := by
      rintro rfl
      exact hnodup.1 hd
    have hmem : d ∈ l₁ ++ c :: l₂ := by
      rw [List.mem_append] at hd
      rcases hd with hd | hd <;> simp [hd]
    simpa [State.freeNode, State.modify, hdc] using h.live d hmem

theorem ListOk.tail (h : ListOk s l) (hr : Removes s c (.tail prev) a) :
    ∃ next head, s.removeStep c (.tail prev) = some ({ s with next, head }, none) ∧
      ListOk ({ s with next, head }.setRemoval a c none) l := by
  have hc : c ∉ l := by
    rw [h.mem, hr.role]
    exact id
  obtain ⟨hout, hinside⟩ := h.inside hr.removal (by simp)
  obtain ⟨next, head, htail, hlist⟩ := removeStep_tail hinside h.live
  refine ⟨next, head, htail, ?_⟩
  exact h.setRemoval hr hout ⟨rfl, fun _ => rfl⟩ h.nodup (fun _ _ => Iff.rfl) (iff_of_false hc id) h.live
    hlist

-- ---------------------------------------------------------------------------
-- A new connection
-- ---------------------------------------------------------------------------

theorem State.NoRemoval.outside {s : State} (hcalm : s.NoRemoval)
    (hborn : ∀ c, s.count ≤ c → s.connections c = .fresh) (a : Option Nat) : s.Outside a := by
  cases a with
  | none => exact hcalm.1
  | some c =>
    by_cases hc : c < s.count
    · exact hcalm.2 c hc
    · simp [State.Outside, State.removal, hborn c (Nat.le_of_not_lt hc), Connection.fresh]

theorem stepMemalloc_ok (hstep : stepMemalloc s true = some t) (hfresh : s.connections s.count = .fresh)
    (hlist : IsList s.next s.head l) (hnodup : l.Nodup) (hlive : ∀ b ∈ l, (s.connections b).freed = false)
    (hnot : s.count ∉ l) (hlength : l.length ≤ s.count) :
    s.acceptor = .idle ∧ ∃ next head,
      t = { s with count := s.count + 1, acceptor := .accepting s.count, next, head } ∧
        IsList next head (l ++ [s.count]) ∧ ∀ b ∈ l ++ [s.count], (s.connections b).freed = false := by
  unfold stepMemalloc at hstep
  split at hstep
  case h_2 => contradiction
  case h_1 hidle =>
  obtain ⟨next, head, hadd, hlist'⟩ := addConnection_ok
    (s := { s with count := s.count + 1, acceptor := .accepting s.count }) hlist hnodup hlive hnot
    (hlength.trans (Nat.le_succ _))
  have hsame : Function.update s.connections s.count .fresh = s.connections := by
    rw [← hfresh, Function.update_eq_self]
  simp only [if_pos, hsame, hadd, Option.getD_some, Option.some.injEq] at hstep
  refine ⟨hidle, next, head, hstep.symm, hlist', fun b hb => ?_⟩
  rcases List.mem_append.mp hb with hb | hb
  · exact hlive b hb
  · rw [List.mem_singleton.mp hb]
    exact congrArg Connection.freed hfresh

theorem ListOk.memalloc (h : ListOk s l) (hcalm : s.NoRemoval)
    (hborn : ∀ c, s.count ≤ c → s.connections c = .fresh ∧ s.acceptor.role c = .none)
    (hlength : l.length ≤ s.count) (hstep : stepMemalloc s true = some t) :
    s.acceptor = .idle ∧ ∃ next head,
      t = { s with count := s.count + 1, acceptor := .accepting s.count, next, head } ∧ ListOk t (l ++ [s.count]) := by
  obtain ⟨hfresh, hnone⟩ := hborn s.count (Nat.le_refl _)
  have hout (a : Option Nat) : s.Outside a := hcalm.outside (fun c hc => (hborn c hc).1) a
  have hnot : s.count ∉ l := by
    rw [h.mem, State.role, hfresh]
    simp [Connection.fresh, hnone, Role.Linked]
  obtain ⟨hidle, next, head, rfl, hlist, hlive⟩ :=
    stepMemalloc_ok hstep hfresh (h.isList hout) h.nodup h.live hnot hlength
  refine ⟨hidle, next, head, rfl, ?_, fun c => ?_, hlive, .whole (fun a => ?_) hlist⟩
  · refine List.nodup_append.mpr ⟨h.nodup, List.nodup_singleton _, ?_⟩
    rintro a ha _ hb rfl
    exact hnot (List.mem_singleton.mp hb ▸ ha)
  · rw [List.mem_append, List.mem_singleton, h.mem]
    by_cases hc : c = s.count
    · simp [State.role, hc, hfresh, Connection.fresh, Acceptor.role, Role.Linked]
    · simp [State.role, hidle, Acceptor.role, hc, Ne.symm hc]
  · cases a with
    | none => simp [State.Outside, State.removal]
    | some c => exact hout (some c)

end GeoNS.Socket
