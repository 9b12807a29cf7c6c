import GeoNS.Socket.Release

/-!
# Kills that nobody interrupts

Whoever kills a server takes the connections off the front of its list, stage
by stage, and finds the list whole between two of them.
-/

namespace GeoNS.Socket.Lifecycle

open LinkedList Runs

-- ---------------------------------------------------------------------------
-- The front of the list
-- ---------------------------------------------------------------------------

theorem Whole.congr (h : Whole s l) (hlist : t.next = s.next ∧ t.head = s.head ∧ t.count = s.count)
    (hfreed : ∀ d, (t.connections d).freed = (s.connections d).freed) : Whole t l := by
  obtain ⟨hnext, hhead, hcount⟩ := hlist
  refine ⟨?_, h.nodup, fun d hd => ?_, ?_⟩
  · rw [hnext, hhead]
    exact h.isList
  · rw [hfreed, h.live d hd]
  · rw [hcount]
    exact h.length

theorem Whole.head_eq (h : Whole s l) : s.head = l.head? := isList_head h.isList

def Front (s : Socket.State) (l : List Nat) (c : Nat) : Stage → Prop
  | .find | .close none | .freeBuffer none | .unlink none => Whole s (c :: l)
  | .tail none => l = []
  | _ => False

def Went (s : Socket.State) (l : List Nat) (c : Nat) : Option Stage → Prop
  | some stage => Front s l c stage
  | none => Whole s l

structure Taken (s t : Socket.State) (l : List Nat) (c : Nat) (stage : Stage) (after : Option Stage) :
    Prop where
  went : Went t l c after
  freed : Freed s t (freedNode s c stage)
  same : SameThreads s t
  crashed : t.crashed = s.crashed

theorem Whole.find (h : Whole s (c :: l)) :
    ∃ t after, s.removeStep c .find = some (t, after) ∧ Taken s t l c .find after := by
  have hfound : s.search c (s.count + 1) none s.head = .found none := by
    rw [h.head_eq, List.head?_cons, Socket.State.search, if_pos rfl]
  refine ⟨s, some (if (s.connections c).established then .close none else .freeBuffer none), ?_, ?_,
    freed_nil fun _ => rfl, .refl s, rfl⟩
  · simp only [Socket.State.removeStep, hfound]
  · cases (s.connections c).established <;> exact h

theorem Whole.close (h : Whole s (c :: l)) :
    ∃ t after, s.removeStep c (.close none) = some (t, after) ∧ Taken s t l c (.close none) after := by
  have hlive := h.live c List.mem_cons_self
  refine ⟨s.useFd c .close, some (.freeBuffer none), if_neg (by simp [hlive]), ?_,
    freed_nil fun _ => rfl, ⟨rfl, fun _ => rfl⟩, rfl⟩
  exact h.congr (t := s.useFd c .close) ⟨rfl, rfl, rfl⟩ fun _ => rfl

theorem Whole.freeBuffer (h : Whole s (c :: l)) :
    ∃ t after, s.removeStep c (.freeBuffer none) = some (t, after) ∧
      Taken s t l c (.freeBuffer none) after := by
  have hlive := h.live c List.mem_cons_self
  have hfreed (d : Nat) := (setBuffer_same s c false d).2.2.1
  refine ⟨s.modify c fun connection => { connection with hasBuffer := false }, some (.unlink none),
    if_neg (by simp [hlive]), ?_, freed_nil hfreed, sameThreads_setBuffer s c false, rfl⟩
  exact h.congr ⟨rfl, rfl, rfl⟩ hfreed

theorem Whole.unlink (h : Whole s (c :: l)) :
    ∃ t after, s.removeStep c (.unlink none) = some (t, after) ∧ Taken s t l c (.unlink none) after := by
  have hlive := h.live c List.mem_cons_self
  have hhead : s.head = some c := h.head_eq
  have hfreed (head : Option Nat) : Freed s ({ s with head }.freeNode c) (freedNode s c (.unlink none)) := by
    rw [freedNode_unlink fun _ => hhead]
    refine freed_node hlive fun d => ?_
    by_cases hd : d = c <;> simp [Socket.State.freeNode, Socket.State.modify, hd]
  obtain ⟨-, hrest⟩ := h.isList
  cases hnext : s.next c with
  | none =>
    rw [hnext] at hrest
    obtain rfl := seg_null hrest
    refine ⟨{ s with head := s.head }.freeNode c, some (.tail none), ?_, rfl, hfreed s.head,
      sameThreads_freeNode s s.next s.head c, rfl⟩
    simp [Socket.State.removeStep, hlive, hnext, hhead]
  | some q =>
    rw [hnext] at hrest
    have hnodup := List.nodup_cons.mp h.nodup
    have hwhole : Whole ({ s with head := some q }.freeNode c) l := by
      refine ⟨hrest, hnodup.2, fun d hd => ?_, Nat.le_of_succ_le h.length⟩
      have hdc : d ≠ c := fun hdc => hnodup.1 (hdc ▸ hd)
      simpa [Socket.State.freeNode, Socket.State.modify, hdc] using h.live d (List.mem_cons_of_mem c hd)
    refine ⟨{ s with head := some q }.freeNode c, none, ?_, ?_⟩
    · simp [Socket.State.removeStep, hlive, hnext]
    · exact ⟨hwhole, hfreed (some q), sameThreads_freeNode s s.next (some q) c, rfl⟩

theorem Front.removeStep (h : Front s l c stage) :
    ∃ t after, s.removeStep c stage = some (t, after) ∧ Taken s t l c stage after := by
  cases stage with
  | find => exact Whole.find h
  | close prev =>
    cases prev with
    | none => exact Whole.close h
    | some p => exact h.elim
  | freeBuffer prev =>
    cases prev with
    | none => exact Whole.freeBuffer h
    | some p => exact h.elim
  | unlink prev =>
    cases prev with
    | none => exact Whole.unlink h
    | some p => exact h.elim
  | tail prev =>
    cases prev with
    | none =>
      obtain rfl : l = [] := h
      refine ⟨{ s with head := none }, none, rfl, ⟨rfl, List.nodup_nil, ?_, Nat.zero_le _⟩,
        freed_nil fun _ => rfl, ⟨rfl, fun _ => rfl⟩, rfl⟩
      simp
    | some p => exact h.elim

-- ---------------------------------------------------------------------------
-- Where a kill is
-- ---------------------------------------------------------------------------

def KillingAt (s : Socket.State) (current : Option Nat) : Prop := ∃ l, Whole s l ∧ current = l.head?

def RemovingAt (s : Socket.State) (c : Nat) (stage : Stage) (current : Option Nat) : Prop :=
  ∃ l, Front s l c stage ∧ current = l.head?

theorem Whole.killingAt (h : Whole s l) : KillingAt s s.head := ⟨l, h, h.head_eq⟩

theorem KillingAt.next (h : KillingAt s (some c)) :
    (s.connections c).freed = false ∧ RemovingAt s c .find (s.next c) := by
  obtain ⟨l, hl, hc⟩ := h
  cases l with
  | nil => contradiction
  | cons d l =>
    obtain rfl := Option.some.inj hc
    refine ⟨hl.live c List.mem_cons_self, l, hl, ?_⟩
    exact isList_head hl.isList.2

theorem KillingAt.congr (h : KillingAt s current)
    (hlist : t.next = s.next ∧ t.head = s.head ∧ t.count = s.count)
    (hconnections : t.connections = s.connections) : KillingAt t current := by
  obtain ⟨l, hl, hcurrent⟩ := h
  exact ⟨l, hl.congr hlist fun d => by rw [hconnections], hcurrent⟩

theorem Front.congr (h : Front s l c stage) (hlist : t.next = s.next ∧ t.head = s.head ∧ t.count = s.count)
    (hconnections : t.connections = s.connections) : Front t l c stage := by
  have hwhole (hs : Whole s (c :: l)) : Whole t (c :: l) := hs.congr hlist fun d => by rw [hconnections]
  cases stage with
  | find => exact hwhole h
  | close prev | freeBuffer prev | unlink prev =>
    cases prev with
    | none => exact hwhole h
    | some p => exact h
  | tail prev => cases prev <;> exact h

theorem RemovingAt.congr (h : RemovingAt s c stage current)
    (hlist : t.next = s.next ∧ t.head = s.head ∧ t.count = s.count)
    (hconnections : t.connections = s.connections) : RemovingAt t c stage current := by
  obtain ⟨l, hl, hcurrent⟩ := h
  exact ⟨l, hl.congr hlist hconnections, hcurrent⟩

end GeoNS.Socket.Lifecycle
