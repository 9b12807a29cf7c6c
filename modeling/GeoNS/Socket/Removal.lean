import GeoNS.Socket.Steps

/-!
# The steps of a removal

`remove_connection` finds the connection, closes its socket and unlinks its
node; each step keeps the invariant and ends without a fault.
-/

namespace GeoNS.Socket

open SlotTable

theorem Stage.role_ne_none (stage : Stage) : stage.role ≠ .none := by
  cases stage <;> simp [Stage.role]

theorem stepRemove_cases (hserving : ∀ c stage current, s.acceptor ≠ .killRemoving c stage current)
    (hthread : ∀ c, s.acceptor.role c ≠ .none → (s.connections c).thread = .notStarted)
    (hstep : stepRemove s a = some t) :
    ∃ c stage, Removes s c stage a ∧
      ∀ s' after, s.removeStep c stage = some (s', after) → t = s'.setRemoval a c after := by
  cases a with
  | none =>
    simp only [stepRemove] at hstep
    split at hstep
    case h_1 c stage hacceptor =>
      have hrole : s.acceptor.role c = stage.role := by rw [hacceptor]; exact if_pos rfl
      have hthread := hthread c (by rw [hrole]; exact stage.role_ne_none)
      refine ⟨c, stage, .acceptor hacceptor hthread, fun s' after hremove => ?_⟩
      rw [hremove] at hstep
      cases after <;> exact (Option.some.inj hstep).symm
    case h_2 hacceptor => exact absurd hacceptor (hserving _ _ _)
    case h_3 => contradiction
  | some c =>
    simp only [stepRemove] at hstep
    split at hstep
    case h_1 stage hthread =>
      refine ⟨c, stage, .thread hthread, fun s' after hremove => ?_⟩
      rw [hremove] at hstep
      cases after <;> exact (Option.some.inj hstep).symm
    case h_2 => contradiction

theorem local_setRemoval (h : Removes s c stage a) (after : Option Stage) :
    Local c s (s.setRemoval a c after) := by
  cases h with
  | acceptor hacceptor =>
    have hrole (d : Nat) (hd : d ≠ c) :
        (s.setRemoval none c after).acceptor.role d = s.acceptor.role d := by
      rw [hacceptor]
      cases after with
      | none => exact (if_neg (Ne.symm hd)).symm
      | some stage => exact (if_neg (Ne.symm hd)).trans (if_neg (Ne.symm hd)).symm
    cases after <;> exact local_acceptor hrole
  | thread => cases after <;> exact local_setThread s c _

/-- A removal goes on from the state `t` it made of `s`. -/
theorem Inv.setRemoval (h : Inv s) (hr : Removes s c stage a) (hsame : SameThreads s t)
    (hl : Local c s t) (hsafe : t.crashed = false)
    (hlistening : t.acceptor ≠ .ended → slot t.table t.serverFd = some .other)
    (hsockets : SocketsOk t) (hcount : t.count = s.count) (hwaiting : roleAfter after ≠ .waiting)
    (hholding : roleAfter after = .holding → (t.connections c).established)
    (hclosed : t.Closed c ↔ (t.connections c).established ∧ (roleAfter after).Past)
    (hlist : ∃ l, ListOk (t.setRemoval a c after) l) : Inv (t.setRemoval a c after) := by
  have hremoves := hsame.removes hr
  have hrole := hremoves.role_setRemoval after c
  rw [if_pos rfl] at hrole
  have hdata (d : Nat) : ((t.setRemoval a c after).connections d).fd = (t.connections d).fd ∧
      ((t.setRemoval a c after).connections d).established = (t.connections d).established := by
    by_cases hd : d = c <;> cases a <;> cases after <;> simp [State.setRemoval, hd]
  have hkept : (t.setRemoval a c after).crashed = t.crashed ∧
      (t.setRemoval a c after).table = t.table ∧ (t.setRemoval a c after).uses = t.uses ∧
      (t.setRemoval a c after).serverFd = t.serverFd ∧ (t.setRemoval a c after).count = t.count := by
    cases a <;> cases after <;> exact ⟨rfl, rfl, rfl, rfl, rfl⟩
  obtain ⟨hcrashed, htable, huses, hfd, hcount'⟩ := hkept
  have hlt : c < s.count := (h.connections c).lt_count (by rw [hr.role]; exact stage.role_ne_none)
  constructor
  · rw [hcrashed, hsafe]
  · have hserving := h.serving
    cases hremoves with
    | acceptor => cases after <;> trivial
    | thread => cases after <;> simpa [State.setRemoval, hsame.acceptor] using hserving
  · rw [htable, hfd]
    intro hended
    refine hlistening fun hacceptor => hended ?_
    cases hremoves with
    | acceptor hremoving => simp [hacceptor] at hremoving
    | thread => cases after <;> exact hacceptor
  · refine hsockets.frame (fun _ _ => by rw [htable]) huses (fun d => (hdata d).1) fun d => (hdata d).2
  · refine connectionOk_of_local h.connections (hl.trans (local_setRemoval hremoves after)) ?_
    constructor
    · rw [hcount', hcount]
      exact fun hcount => absurd hlt (Nat.not_lt_of_le hcount)
    · intro hstarted
      cases hremoves with
      | acceptor _ hthread => cases after <;> exact absurd hthread hstarted
      | thread hthread =>
        have halone := (h.connections c).alone (by rw [← hsame.thread, hthread]; simp)
        cases after <;> simpa [State.setRemoval, hsame.acceptor] using halone
    · rw [hrole]
      exact fun hwaiting' => absurd hwaiting' hwaiting
    · rw [hrole, (hdata c).2]
      exact hholding
    · rw [hrole, (hdata c).2, ← hclosed, State.Closed, State.Closed, huses]
    · cases hremoves with
      | acceptor _ hthread => cases after <;> simp [State.setRemoval, hthread]
      | thread => cases after <;> simp [State.setRemoval]
  · exact hlist

theorem Inv.find (h : Inv s) (hr : Removes s c .find a) (hout : ∀ b, s.Outside b) :
    ∃ t after, s.removeStep c .find = some (t, after) ∧ Inv (t.setRemoval a c after) := by
  obtain ⟨l, hl⟩ := h.list
  obtain ⟨stage, hfound, hstage, hlist⟩ := hl.find hr hout (h.length_le hl)
  have hopen : ¬ s.Closed c := by
    rw [(h.connections c).closed, hr.role]
    exact fun hclosed => hclosed.2
  have hafter : roleAfter (some stage) = if (s.connections c).established then .holding else .leaving :=
    hstage
  refine ⟨s, some stage, hfound, ?_⟩
  refine h.setRemoval hr (.refl s) (.refl c s) h.safe h.listening h.sockets rfl ?_ ?_ ?_ ⟨l, hlist⟩
  · rw [hafter]
    split <;> simp
  · rw [hafter]
    split
    · exact fun _ => ‹_›
    · simp
  · rw [hafter]
    split
    · simp [hopen, Role.Past]
    · rename_i hestablished
      simp [hopen, hestablished]

theorem Inv.close (h : Inv s) (hr : Removes s c (.close prev) a) :
    ∃ t after, s.removeStep c (.close prev) = some (t, after) ∧ Inv (t.setRemoval a c after) := by
  obtain ⟨l, hl⟩ := h.list
  obtain ⟨hclose, hlist⟩ := hl.close hr
  have hrole : s.role c = .holding := hr.role
  obtain ⟨hestablished, hopen⟩ := h.established hrole
  refine ⟨_, _, hclose, ?_⟩
  refine h.setRemoval hr ⟨rfl, fun _ => rfl⟩ (local_useFd s c .close) h.safe
    (h.listening_useFd hrole .close) (h.sockets.useFd hestablished hopen .close) rfl ?_ ?_ ?_ ⟨l, hlist⟩
  · simp [roleAfter, Stage.role]
  · simp [roleAfter, Stage.role]
  · rw [closed_useFd]
    exact iff_of_true (.inr ⟨rfl, rfl⟩) ⟨hestablished, trivial⟩

theorem Inv.leaving_closed (h : Inv s) (hrole : (s.role c).Past) (hafter : (roleAfter after).Past) :
    s.Closed c ↔ (s.connections c).established ∧ (roleAfter after).Past := by
  rw [(h.connections c).closed]
  simp only [hrole, hafter]

theorem Inv.freeBuffer (h : Inv s) (hr : Removes s c (.freeBuffer prev) a) :
    ∃ t after, s.removeStep c (.freeBuffer prev) = some (t, after) ∧ Inv (t.setRemoval a c after) := by
  obtain ⟨l, hl⟩ := h.list
  obtain ⟨hbuffer, hlist⟩ := hl.freeBuffer hr
  have hfreed := h.setBuffer ((h.connections c).lt_count (by simp [hr.role, Stage.role])) false
  have hr' := (sameThreads_setBuffer s c false).removes hr
  refine ⟨_, _, hbuffer, ?_⟩
  refine hfreed.setRemoval hr' (.refl _) (.refl _ _) hfreed.safe hfreed.listening hfreed.sockets rfl
    ?_ ?_ ?_ ⟨l, hlist⟩
  · simp [roleAfter, Stage.role]
  · simp [roleAfter, Stage.role]
  · exact hfreed.leaving_closed (by rw [hr'.role]; trivial) trivial

theorem past_of_not_linked {role : Role} (h : ¬ role.Linked) :
    role.Past ∧ role ≠ .waiting ∧ role ≠ .holding := by
  cases role <;> simp_all [Role.Linked, Role.Past]

theorem Inv.setRemoval_list (h : Inv s) (hr : Removes s c stage a) (hpast : (s.role c).Past)
    (hlinked : ¬ (roleAfter after).Linked) (ht : t = { s with next, head }.freeNode c ∨ t = { s with next, head })
    (hlist : ∃ l, ListOk (t.setRemoval a c after) l) : Inv (t.setRemoval a c after) := by
  have hconnections (d : Nat) : (t.connections d).thread = (s.connections d).thread ∧
      (t.connections d).fd = (s.connections d).fd ∧
      (t.connections d).established = (s.connections d).established := by
    rcases ht with rfl | rfl
    · by_cases hd : d = c <;> simp [State.freeNode, State.modify, hd]
    · exact ⟨rfl, rfl, rfl⟩
  have hlocal : Local c s t := by
    rcases ht with rfl | rfl
    · exact ⟨fun d hd => Function.update_of_ne hd _ _, fun _ _ => rfl, fun _ _ => Iff.rfl, Nat.le_refl _⟩
    · exact ⟨fun _ _ => rfl, fun _ _ => rfl, fun _ _ => Iff.rfl, Nat.le_refl _⟩
  have hkept : t.acceptor = s.acceptor ∧ t.table = s.table ∧ t.uses = s.uses ∧
      t.serverFd = s.serverFd ∧ t.count = s.count ∧ t.crashed = s.crashed := by
    rcases ht with rfl | rfl <;> exact ⟨rfl, rfl, rfl, rfl, rfl, rfl⟩
  obtain ⟨hacceptor, htable, huses, hfd, hcount, hcrashed⟩ := hkept
  have hsame : SameThreads s t := ⟨hacceptor, fun d => (hconnections d).1⟩
  obtain ⟨hpast', hwaiting, hholding⟩ := past_of_not_linked hlinked
  refine h.setRemoval hr hsame hlocal (hcrashed.trans h.safe) ?_ ?_ hcount hwaiting
    (fun hrole => absurd hrole hholding) ?_ hlist
  · rw [hacceptor, htable, hfd]
    exact h.listening
  · exact h.sockets.frame (fun _ _ => by rw [htable]) huses (fun d => (hconnections d).2.1)
      fun d => (hconnections d).2.2
  · rw [State.Closed, huses, (hconnections c).2.2]
    exact h.leaving_closed hpast hpast'

theorem Inv.unlink (h : Inv s) (hr : Removes s c (.unlink prev) a) :
    ∃ t after, s.removeStep c (.unlink prev) = some (t, after) ∧ Inv (t.setRemoval a c after) := by
  obtain ⟨l, hl⟩ := h.list
  obtain ⟨-, next, head, after, l', hunlink, hlinked, hlist⟩ := hl.unlink hr
  refine ⟨_, _, hunlink, ?_⟩
  exact h.setRemoval_list hr (by rw [hr.role]; trivial) hlinked (.inl rfl) ⟨l', hlist⟩

theorem Inv.tail (h : Inv s) (hr : Removes s c (.tail prev) a) :
    ∃ t after, s.removeStep c (.tail prev) = some (t, after) ∧ Inv (t.setRemoval a c after) := by
  obtain ⟨l, hl⟩ := h.list
  obtain ⟨next, head, htail, hlist⟩ := hl.tail hr
  refine ⟨_, _, htail, ?_⟩
  exact h.setRemoval_list hr (by rw [hr.role]; trivial) id (.inr rfl) ⟨l, hlist⟩

theorem Inv.remove (h : Inv s) (hcalm : s.Outside a → s.NoRemoval) (hstep : stepRemove s a = some t) :
    Inv t := by
  have hserving : ∀ c stage current, s.acceptor ≠ .killRemoving c stage current := by
    intro c stage current hacceptor
    have hserving := h.serving
    rw [hacceptor] at hserving
    exact hserving
  obtain ⟨c, stage, hr, hafter⟩ :=
    stepRemove_cases hserving (fun c => (h.connections c).notStarted) hstep
  have hremove : ∃ s' after, s.removeStep c stage = some (s', after) ∧ Inv (s'.setRemoval a c after) := by
    cases stage with
    | find =>
      refine h.find hr (h.outside (hcalm ?_))
      rw [State.Outside, hr.removal]
      rintro r ⟨⟩
      rfl
    | close prev => exact h.close hr
    | freeBuffer prev => exact h.freeBuffer hr
    | unlink prev => exact h.unlink hr
    | tail prev => exact h.tail hr
  obtain ⟨s', after, hremove, hinv⟩ := hremove
  rwa [hafter s' after hremove]

end GeoNS.Socket
