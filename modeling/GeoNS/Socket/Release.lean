import GeoNS.Socket.Lifecycle
import GeoNS.Socket.Removal

/-!
# Calm lifecycles

Until somebody begins to kill a server, its list holds the connections that its
threads work for. From then on, only the one who kills it takes steps: it takes
the connections off the front of the list, and releases the server last.
-/

namespace GeoNS.Socket.Lifecycle

open LinkedList Runs

-- ---------------------------------------------------------------------------
-- What a step releases
-- ---------------------------------------------------------------------------

structure Freed (s t : Socket.State) (ds : List Nat) : Prop where
  nodup : ds.Nodup
  live : ∀ d ∈ ds, (s.connections d).freed = false
  gone : ∀ d ∈ ds, (t.connections d).freed
  kept : ∀ d, (s.connections d).freed → (t.connections d).freed

theorem Freed.trans (h : Freed s t []) (h' : Freed t u ds) : Freed s u ds where
  nodup := h'.nodup
  live d hd := by
    have hlive := h'.live d hd
    by_contra hfreed
    rw [h.kept d (by simpa using hfreed)] at hlive
    contradiction
  gone := h'.gone
  kept d hd := h'.kept d (h.kept d hd)

theorem freed_nil (h : ∀ d, (t.connections d).freed = (s.connections d).freed) : Freed s t [] where
  nodup := List.nodup_nil
  live := by simp
  gone := by simp
  kept d hd := by rw [h, hd]

-- ---------------------------------------------------------------------------
-- Before a kill
-- ---------------------------------------------------------------------------

/-- The list of a server that nobody has begun to kill. -/
structure Tracked (s : Socket.State) : Prop where
  safe : s.crashed = false
  serving : closing s.acceptor = false
  born : ∀ c, s.count ≤ c → s.connections c = .fresh ∧ s.acceptor.role c = .none
  alone : ∀ c, (s.connections c).thread ≠ .notStarted → s.acceptor.role c = .none
  returns : ∀ c calls result, (s.connections c).thread = .calling calls result → result ≠ .fault
  list : ∃ l, ListOk s l

theorem Tracked.lt_count (h : Tracked s) (hrole : s.role c ≠ .none) : c < s.count := by
  by_contra hcount
  obtain ⟨hfresh, hnone⟩ := h.born c (Nat.le_of_not_lt hcount)
  simp [Socket.State.role, hfresh, Connection.fresh, hnone] at hrole

theorem Tracked.length_le (h : Tracked s) (hl : ListOk s l) : l.length ≤ s.count := by
  refine hl.length_le fun c hc => h.lt_count ?_
  rintro hnone
  rwa [hnone] at hc

theorem Tracked.outside (h : Tracked s) (hcalm : s.NoRemoval) (a : Option Nat) : s.Outside a :=
  hcalm.outside (fun d hd => (h.born d hd).1) a

theorem Tracked.live (h : Tracked s) (hrole : (s.role c).Linked) : (s.connections c).freed = false := by
  obtain ⟨l, hl⟩ := h.list
  exact hl.live c ((hl.mem c).mpr hrole)

theorem Tracked.reading (h : Tracked s) (hrole : (s.role c).Linked) (t : Socket.State) :
    s.reading c t = t := by
  rw [Socket.State.reading, if_neg (by simp [h.live hrole])]

theorem Tracked.notStarted (h : Tracked s) (hrole : s.acceptor.role c ≠ .none) :
    (s.connections c).thread = .notStarted := by
  by_contra hstarted
  exact hrole (h.alone c hstarted)

theorem Tracked.role_acceptor (h : Tracked s) (hrole : s.acceptor.role c ≠ .none) :
    s.role c = s.acceptor.role c := if_pos (h.notStarted hrole)

theorem Tracked.congr (h : Tracked s)
    (hlist : t.next = s.next ∧ t.head = s.head ∧ t.count = s.count)
    (hsame : t.acceptor = s.acceptor ∧ t.crashed = s.crashed)
    (hconnections : ∀ d, (t.connections d).freed = (s.connections d).freed ∧
      (t.connections d).thread = (s.connections d).thread)
    (hfresh : ∀ d, s.count ≤ d → t.connections d = s.connections d) : Tracked t ∧ Freed s t [] := by
  obtain ⟨hnext, hhead, hcount⟩ := hlist
  obtain ⟨hacceptor, hcrashed⟩ := hsame
  have hthreads : SameThreads s t := ⟨hacceptor, fun d => (hconnections d).2⟩
  obtain ⟨l, hl⟩ := h.list
  refine ⟨⟨hcrashed.trans h.safe, ?_, fun d hd => ?_, fun d hd => ?_, fun d => ?_, l, ?_⟩,
    freed_nil fun d => (hconnections d).1⟩
  · rw [hacceptor]
    exact h.serving
  · rw [hcount] at hd
    rw [hacceptor, hfresh d hd]
    exact h.born d hd
  · rw [(hconnections d).2] at hd
    rw [hacceptor]
    exact h.alone d hd
  · rw [(hconnections d).2]
    exact h.returns d
  · exact hl.frame hnext hhead (fun d => (hconnections d).1) (fun d => by rw [hthreads.role])
      fun a => .inl (hthreads.removal a)

theorem Tracked.useFd (h : Tracked s) (c : Nat) (call : FdCall) :
    Tracked (s.useFd c call) ∧ Freed s (s.useFd c call) [] :=
  h.congr (t := s.useFd c call) ⟨rfl, rfl, rfl⟩ ⟨rfl, rfl⟩ (fun _ => ⟨rfl, rfl⟩) fun _ _ => rfl

theorem Tracked.setThread (h : Tracked s) (thread : Thread)
    (hrunning : (s.connections c).thread.Running) (hthread : thread.Running ∨ thread = .removing .find)
    (hreturns : ∀ calls result, thread = .calling calls result → result ≠ .fault) :
    Tracked (s.setThread c thread) ∧ Freed s (s.setThread c thread) [] := by
  have hold := role_of_running hrunning
  have hnew : ((s.setThread c thread).role c).Linked := by
    rw [role_setThread, if_pos rfl]
    rcases hthread with hrunning' | rfl
    · rw [if_neg hrunning'.ne_notStarted, hrunning'.role_eq]
      trivial
    · trivial
  have hfreed (d : Nat) : ((s.setThread c thread).connections d).freed = (s.connections d).freed := by
    by_cases hd : d = c <;> simp [hd]
  have hcount : c < s.count := h.lt_count (by simp [hold])
  obtain ⟨l, hl⟩ := h.list
  refine ⟨⟨h.safe, h.serving, fun d hd => ?_, fun d hd => ?_, fun d => ?_, l, ?_⟩, freed_nil hfreed⟩
  · have hdc : d ≠ c := fun hdc => absurd hcount (Nat.not_lt_of_le (hdc ▸ hd))
    simpa [hdc] using h.born d hd
  · by_cases hdc : d = c
    · rw [hdc]
      exact h.alone c hrunning.ne_notStarted
    · exact h.alone d (by simpa [hdc] using hd)
  · by_cases hdc : d = c
    · simpa [hdc] using hreturns
    · simpa [hdc] using h.returns d
  · refine hl.frame rfl rfl hfreed (fun d => ?_) fun a => ?_
    · by_cases hd : d = c
      · rw [hd, hold]
        exact iff_of_true hnew trivial
      · rw [role_setThread, if_neg hd]
    · exact removal_setThread_running hrunning hthread a

theorem Tracked.setAcceptor (h : Tracked s) (acceptor : Acceptor) (hserving : closing acceptor = false)
    (hold : s.acceptor.WorksFor c r) (hnew : acceptor.WorksFor c r') (hrole : r.Linked)
    (hrole' : r'.Linked) (hout : s.Outside none)
    (hout' : Socket.State.Outside { s with acceptor } none) :
    Tracked { s with acceptor } ∧ Freed s { s with acceptor } [] := by
  have hne : s.acceptor.role c ≠ .none := by
    rw [hold.self]
    rintro rfl
    exact hrole
  have hthread := h.notStarted hne
  have hbefore : s.role c = r := (h.role_acceptor hne).trans hold.self
  have hlt : c < s.count := h.lt_count (by rwa [h.role_acceptor hne])
  obtain ⟨l, hl⟩ := h.list
  refine ⟨⟨h.safe, hserving, fun d hd => ?_, fun d hd => ?_, h.returns, l, ?_⟩, freed_nil fun _ => rfl⟩
  · have hdc : d ≠ c := fun hdc => absurd hlt (Nat.not_lt_of_le (hdc ▸ hd))
    rw [hold.others hnew d hdc]
    exact h.born d hd
  · have hdc : d ≠ c := fun hdc => hd (hdc ▸ hthread)
    rw [hold.others hnew d hdc]
    exact h.alone d hd
  · refine hl.frame rfl rfl (fun _ => rfl) (fun d => ?_) fun a => ?_
    · by_cases hd : d = c
      · have hafter : Socket.State.role { s with acceptor } c = r' := by
          rw [Socket.State.role, if_pos hthread, hnew.self]
        rw [hd, hbefore, hafter]
        exact iff_of_true hrole' hrole
      · simp only [Socket.State.role, hold.others hnew d hd]
    · cases a with
      | none => exact .inr ⟨hout, hout'⟩
      | some d => exact .inl rfl

/-- A list that nobody is changing. -/
structure Whole (s : Socket.State) (l : List Nat) : Prop where
  isList : IsList s.next s.head l
  nodup : l.Nodup
  live : ∀ c ∈ l, (s.connections c).freed = false
  length : l.length ≤ s.count

theorem Tracked.whole (h : Tracked s) (hcalm : s.NoRemoval) : ∃ l, Whole s l := by
  obtain ⟨l, hl⟩ := h.list
  exact ⟨l, hl.isList (h.outside hcalm), hl.nodup, hl.live, h.length_le hl⟩

theorem Tracked.memalloc (h : Tracked s) (hcalm : s.NoRemoval) (hstep : stepMemalloc s true = some t) :
    Tracked t ∧ Freed s t [] := by
  obtain ⟨l, hl⟩ := h.list
  have hfresh := (h.born s.count (Nat.le_refl _)).1
  obtain ⟨-, next, head, rfl, hlist⟩ := hl.memalloc hcalm h.born (h.length_le hl) hstep
  have hnew (d : Nat) : (Acceptor.accepting s.count).role d = if s.count = d then .waiting else .none :=
    rfl
  refine ⟨⟨h.safe, rfl, fun d hd => ?_, fun d hd => ?_, h.returns, l ++ [s.count], hlist⟩,
    freed_nil fun _ => rfl⟩
  · replace hd : s.count + 1 ≤ d := hd
    have hne : s.count ≠ d := by omega
    rw [hnew, if_neg hne]
    exact ⟨(h.born d (by omega)).1, rfl⟩
  · have hne : s.count ≠ d := by
      rintro rfl
      exact hd (congrArg Connection.thread hfresh)
    rw [hnew, if_neg hne]

theorem Tracked.accept (h : Tracked s) (hstep : stepAccept s ok = some t) :
    (Tracked t ∧ Freed s t []) ∧ ∀ c ∈ s.acceptor.current, (s.connections c).freed = false := by
  unfold stepAccept at hstep
  split at hstep
  case h_2 => contradiction
  case h_1 c hacceptor =>
  have hold : s.acceptor.WorksFor c .waiting := by
    rw [hacceptor]
    exact fun _ => rfl
  have hne : s.acceptor.role c ≠ .none := by simp [hold.self]
  have hrole : s.role c = .waiting := (h.role_acceptor hne).trans hold.self
  have hlive : (s.connections c).freed = false := h.live (by rw [hrole]; trivial)
  have hout : s.Outside none := by simp [Socket.State.Outside, Socket.State.removal, hacceptor]
  refine ⟨?_, ?_⟩
  · cases ok with
    | false =>
      obtain rfl := Option.some.inj hstep
      refine h.setAcceptor (.removing c .find) (c := c) rfl hold (fun _ => rfl) trivial
        trivial hout ?_
      simp [Socket.State.Outside, Socket.State.removal]
    | true =>
      obtain rfl := Option.some.inj hstep
      obtain ⟨hnext, hfreed⟩ := h.setAcceptor (.clientData c) (c := c) rfl hold
        (fun _ => rfl) trivial trivial hout (by simp [Socket.State.Outside, Socket.State.removal])
      have hlt : c < s.count := h.lt_count (by simp [hrole])
      obtain ⟨hset, hfreed'⟩ := hnext.congr
        (t := { s.modify c fun connection =>
            { connection with fd := some (SlotTable.lowestFree s.table), established := true } with
          table := SlotTable.insert s.table (.socket c)
          acceptor := .clientData c })
        ⟨rfl, rfl, rfl⟩ ⟨rfl, rfl⟩ (fun d => by by_cases hd : d = c <;> simp [Socket.State.modify, hd])
        fun d hd => Function.update_of_ne (Nat.ne_of_gt (Nat.lt_of_lt_of_le hlt hd)) _ _
      exact ⟨hset, hfreed.trans hfreed'⟩
  · rintro d hd
    rw [hacceptor] at hd
    obtain rfl : c = d := Option.some.inj hd
    exact hlive

theorem Tracked.clientData (h : Tracked s) (hstep : stepClientData s ok = some t) :
    (Tracked t ∧ Freed s t []) ∧ ∀ c ∈ s.acceptor.current, (s.connections c).freed = false := by
  unfold stepClientData at hstep
  split at hstep
  case h_2 => contradiction
  case h_1 c hacceptor =>
  have hold : s.acceptor.WorksFor c .holding := by
    rw [hacceptor]
    exact fun _ => rfl
  have hne : s.acceptor.role c ≠ .none := by simp [hold.self]
  have hrole : s.role c = .holding := (h.role_acceptor hne).trans hold.self
  have hlive : (s.connections c).freed = false := h.live (by rw [hrole]; trivial)
  have hout : s.Outside none := by simp [Socket.State.Outside, Socket.State.removal, hacceptor]
  obtain rfl := Option.some.inj hstep
  refine ⟨?_, ?_⟩
  · cases ok with
    | false =>
      refine h.setAcceptor (.removing c .find) (c := c) rfl hold (fun _ => rfl) trivial
        trivial hout ?_
      simp [Socket.State.Outside, Socket.State.removal]
    | true =>
      refine h.setAcceptor (.create c) (c := c) rfl hold (fun _ => rfl) trivial trivial
        hout ?_
      simp [Socket.State.Outside, Socket.State.removal]
  · rintro d hd
    rw [hacceptor] at hd
    obtain rfl : c = d := Option.some.inj hd
    exact hlive

theorem Tracked.create (h : Tracked s) (hstep : stepCreate s ok = some t) :
    Tracked t ∧ Freed s t [] := by
  unfold stepCreate at hstep
  split at hstep
  case h_2 => contradiction
  case h_1 c hacceptor =>
  have hold : s.acceptor.WorksFor c .holding := by
    rw [hacceptor]
    exact fun _ => rfl
  have hne : s.acceptor.role c ≠ .none := by simp [hold.self]
  have hrole : s.role c = .holding := (h.role_acceptor hne).trans hold.self
  have hthread := h.notStarted hne
  have hout : s.Outside none := by simp [Socket.State.Outside, Socket.State.removal, hacceptor]
  cases ok with
  | false =>
    obtain rfl := Option.some.inj hstep
    refine h.setAcceptor (.removing c .find) (c := c) rfl hold (fun _ => rfl) trivial
      trivial hout ?_
    simp [Socket.State.Outside, Socket.State.removal]
  | true =>
    obtain rfl := Option.some.inj hstep
    have hnew : Acceptor.idle.WorksFor c .none := fun _ => (ite_self _).symm
    have hlt : c < s.count := h.lt_count (by simp [hrole])
    have hfreed (d : Nat) : (({ s with acceptor := .idle }.setThread c .buffer).connections d).freed =
        (s.connections d).freed := by
      by_cases hd : d = c <;> simp [hd]
    obtain ⟨l, hl⟩ := h.list
    refine ⟨⟨h.safe, rfl, fun d hd => ⟨?_, rfl⟩, fun _ _ => rfl, fun d => ?_, l, ?_⟩, freed_nil hfreed⟩
    · have hdc : d ≠ c := fun hdc => absurd hlt (Nat.not_lt_of_le (hdc ▸ hd))
      simpa [hdc] using (h.born d hd).1
    · by_cases hdc : d = c
      · simp [hdc]
      · simpa [hdc] using h.returns d
    · refine hl.frame rfl rfl hfreed (fun d => ?_) fun a => ?_
      · by_cases hd : d = c
        · rw [hd, hrole, role_setThread, if_pos rfl]
          exact Iff.rfl
        · rw [role_setThread, if_neg hd]
          simp only [Socket.State.role, hold.others hnew d hd]
      · cases a with
        | none => exact .inr ⟨hout, by simp [Socket.State.Outside, Socket.State.removal]⟩
        | some d =>
          by_cases hd : d = c
          · simp [Socket.State.Outside, Socket.State.removal, hd, hthread]
          · simp [Socket.State.removal, hd]

theorem Tracked.buffer (h : Tracked s) (hstep : stepBuffer s c ok = some t) :
    Tracked t ∧ Freed s t [] := by
  unfold stepBuffer at hstep
  split at hstep
  case h_2 => contradiction
  case h_1 hthread =>
  have hrunning : (s.connections c).thread.Running := .of_eq hthread trivial
  have hrole := role_of_running hrunning
  have hlt : c < s.count := h.lt_count (by simp [hrole])
  have hsame := setBuffer_same s c ok
  rw [h.reading (by simp [hrole, Role.Linked])] at hstep
  obtain rfl := Option.some.inj hstep
  rw [modify_hasBuffer_thread]
  obtain ⟨hset, hfreed⟩ := h.congr
    (t := s.modify c fun connection => { connection with hasBuffer := ok })
    ⟨rfl, rfl, rfl⟩ ⟨rfl, rfl⟩ (fun d => (hsame d).2.2)
    fun d hd => Function.update_of_ne (Nat.ne_of_gt (Nat.lt_of_lt_of_le hlt hd)) _ _
  obtain ⟨hnext, hfreed'⟩ := hset.setThread (c := c) (if ok then .peek else .removing .find)
    (by simpa [Socket.State.modify] using hrunning)
    (by
      cases ok
      · exact .inr rfl
      · exact .inl trivial)
    (by cases ok <;> simp)
  exact ⟨hnext, hfreed.trans hfreed'⟩

theorem Tracked.peek (h : Tracked s) (hstep : Roster.stepPeek s c got = some t) :
    Tracked t ∧ Freed s t [] := by
  unfold Roster.stepPeek at hstep
  split at hstep
  case h_2 => contradiction
  case h_1 hthread =>
  have hrunning : (s.connections c).thread.Running := .of_eq hthread trivial
  rw [h.reading (by simp [role_of_running hrunning, Role.Linked])] at hstep
  obtain rfl := Option.some.inj hstep
  refine h.setThread _ hrunning ?_ (by cases got <;> simp)
  cases got
  · exact .inr rfl
  · exact .inl trivial

theorem Tracked.callback (h : Tracked s) (hstep : stepCallback s c calls result = some t) :
    Tracked t ∧ Freed s t [] := by
  unfold stepCallback at hstep
  split at hstep
  case h_2 => contradiction
  case h_1 hthread =>
  have hrunning : (s.connections c).thread.Running := .of_eq hthread trivial
  rw [h.reading (by simp [role_of_running hrunning, Role.Linked])] at hstep
  obtain rfl := Option.some.inj hstep
  refine h.setThread _ hrunning (.inl trivial) ?_
  rintro _ _ ⟨⟩
  simp

theorem Tracked.call (h : Tracked s) (hstep : stepCall s c reads = some t) :
    Tracked t ∧ Freed s t [] := by
  unfold stepCall at hstep
  split at hstep
  case h_2 => contradiction
  case h_1 call calls result hthread =>
  have hrunning : (s.connections c).thread.Running := .of_eq hthread trivial
  have hreturns := h.returns c _ _ hthread
  dsimp only at hstep
  rw [h.reading (by simp [role_of_running hrunning, Role.Linked]), ite_self] at hstep
  obtain rfl := Option.some.inj hstep
  refine h.setThread _ hrunning (.inl trivial) ?_
  rintro _ _ ⟨⟩
  exact hreturns

theorem Tracked.consume (h : Tracked s) (hstep : stepConsume s c = some t) :
    Tracked t ∧ Freed s t [] := by
  unfold stepConsume at hstep
  split at hstep
  case h_1 value hthread =>
    have hrunning : (s.connections c).thread.Running := .of_eq hthread trivial
    obtain ⟨hrecv, hfreed⟩ := h.useFd c .recv
    simp only [h.reading (c := c) (by simp [role_of_running hrunning, Role.Linked])] at hstep
    split at hstep
    · obtain rfl := Option.some.inj hstep
      obtain ⟨hnext, hfreed'⟩ := hrecv.setThread _ hrunning (.inr rfl) (by simp)
      exact ⟨hnext, hfreed.trans hfreed'⟩
    split at hstep
    · obtain rfl := Option.some.inj hstep
      obtain ⟨hnext, hfreed'⟩ := hrecv.setThread .peek hrunning (.inl trivial) (by simp)
      exact ⟨hnext, hfreed.trans hfreed'⟩
    · obtain rfl := Option.some.inj hstep
      exact h.setThread _ hrunning (.inl trivial) (by simp)
  case h_2 hthread => exact absurd rfl (h.returns c _ _ hthread)
  case h_3 => contradiction

-- ---------------------------------------------------------------------------
-- Removals before a kill
-- ---------------------------------------------------------------------------

theorem freed_node (hlive : (s.connections c).freed = false)
    (h : ∀ d, (t.connections d).freed = (decide (d = c) || (s.connections d).freed)) : Freed s t [c] where
  nodup := List.nodup_singleton c
  live d hd := by rwa [List.mem_singleton.mp hd]
  gone d hd := by simp [h, List.mem_singleton.mp hd]
  kept d hd := by simp [h, hd]

theorem freedNode_unlink {s : Socket.State} (h : prev = none → s.head = some c) :
    freedNode s c (.unlink prev) = [c] := by
  cases prev with
  | none => simp [freedNode, h rfl]
  | some p => rfl

/-- A removal goes on from the state `t` it made of `s`. -/
theorem Tracked.setRemoval (h : Tracked s) (hr : Removes s c stage a) (hsame : SameThreads s t)
    (hdata : t.crashed = s.crashed ∧ t.count = s.count)
    (hothers : ∀ d, d ≠ c → t.connections d = s.connections d)
    (hlist : ∃ l, ListOk (t.setRemoval a c after) l) : Tracked (t.setRemoval a c after) := by
  have hlt : c < s.count := h.lt_count (by rw [hr.role]; exact stage.role_ne_none)
  have hremoves := hsame.removes hr
  have hkept : (t.setRemoval a c after).crashed = s.crashed ∧ (t.setRemoval a c after).count = s.count := by
    cases a <;> cases after <;> exact hdata
  have hne (d : Nat) (hd : d ≠ c) : (t.setRemoval a c after).connections d = s.connections d := by
    rw [← hothers d hd]
    cases a <;> cases after <;> simp [Socket.State.setRemoval, hd]
  have hacceptor (d : Nat) (hd : d ≠ c) :
      (t.setRemoval a c after).acceptor.role d = s.acceptor.role d := by
    have hcd : c ≠ d := Ne.symm hd
    rw [← hsame.acceptor]
    cases hremoves with
    | acceptor hremoving =>
      cases after <;> simp [Socket.State.setRemoval, hremoving, Acceptor.role, hcd]
    | thread => cases after <;> rfl
  refine ⟨hkept.1.trans h.safe, ?_, fun d hd => ?_, fun d hd => ?_, fun d => ?_, hlist⟩
  · have hserving := h.serving
    cases hremoves with
    | acceptor => cases after <;> rfl
    | thread => cases after <;> simpa [Socket.State.setRemoval, hsame.acceptor] using hserving
  · rw [hkept.2] at hd
    have hdc : d ≠ c := fun hdc => absurd hlt (Nat.not_lt_of_le (hdc ▸ hd))
    rw [hne d hdc, hacceptor d hdc]
    exact h.born d hd
  · by_cases hdc : d = c
    · subst hdc
      cases hremoves with
      | acceptor _ hthread => cases after <;> exact absurd hthread hd
      | thread hthread =>
        have halone := h.alone d (by rw [← hsame.thread, hthread]; simp)
        cases after <;> simpa [Socket.State.setRemoval, hsame.acceptor] using halone
    · rw [hacceptor d hdc]
      exact h.alone d (by rwa [hne d hdc] at hd)
  · by_cases hdc : d = c
    · subst hdc
      cases hremoves with
      | acceptor _ hthread => cases after <;> simp [Socket.State.setRemoval, hthread]
      | thread => cases after <;> simp [Socket.State.setRemoval]
    · rw [hne d hdc]
      exact h.returns d

theorem freed_setRemoval (s : Socket.State) (a : Option Nat) (c : Nat) (after : Option Stage) (d : Nat) :
    ((s.setRemoval a c after).connections d).freed = (s.connections d).freed := by
  by_cases hd : d = c <;> cases a <;> cases after <;> simp [Socket.State.setRemoval, hd]

theorem Tracked.removeStep (h : Tracked s) (hr : Removes s c stage a)
    (hcalm : stage = .find → s.NoRemoval) :
    ∃ t after, s.removeStep c stage = some (t, after) ∧ Tracked (t.setRemoval a c after) ∧
      Freed s (t.setRemoval a c after) (freedNode s c stage) := by
  obtain ⟨l, hl⟩ := h.list
  cases stage with
  | find =>
    obtain ⟨stage, hfound, -, hlist⟩ := hl.find hr (h.outside (hcalm rfl)) (h.length_le hl)
    refine ⟨s, some stage, hfound, ?_, freed_nil fun d => freed_setRemoval s a c _ d⟩
    exact h.setRemoval hr (.refl s) ⟨rfl, rfl⟩ (fun _ _ => rfl) ⟨l, hlist⟩
  | close prev =>
    obtain ⟨hclose, hlist⟩ := hl.close hr
    refine ⟨_, _, hclose, ?_, freed_nil fun d => freed_setRemoval _ a c _ d⟩
    exact h.setRemoval hr ⟨rfl, fun _ => rfl⟩ ⟨rfl, rfl⟩ (fun _ _ => rfl) ⟨l, hlist⟩
  | freeBuffer prev =>
    obtain ⟨hbuffer, hlist⟩ := hl.freeBuffer hr
    refine ⟨_, _, hbuffer, ?_, freed_nil fun d => ?_⟩
    · exact h.setRemoval hr (sameThreads_setBuffer s c false) ⟨rfl, rfl⟩
        (fun d hd => Function.update_of_ne hd _ _) ⟨l, hlist⟩
    · rw [freed_setRemoval]
      exact (setBuffer_same s c false d).2.2.1
  | unlink prev =>
    obtain ⟨hhead, next, head, after, l', hunlink, -, hlist⟩ := hl.unlink hr
    refine ⟨_, _, hunlink, ?_, ?_⟩
    · exact h.setRemoval hr (sameThreads_freeNode s next head c) ⟨rfl, rfl⟩
        (fun d hd => Function.update_of_ne hd _ _) ⟨l', hlist⟩
    · rw [freedNode_unlink hhead]
      refine freed_node (h.live (by rw [hr.role]; trivial)) fun d => ?_
      rw [freed_setRemoval]
      by_cases hd : d = c <;> simp [Socket.State.freeNode, Socket.State.modify, hd]
  | tail prev =>
    obtain ⟨next, head, htail, hlist⟩ := hl.tail hr
    refine ⟨_, _, htail, ?_, freed_nil fun d => freed_setRemoval _ a c _ d⟩
    exact h.setRemoval hr ⟨rfl, fun _ => rfl⟩ ⟨rfl, rfl⟩ (fun _ _ => rfl) ⟨l, hlist⟩

theorem Tracked.remove (h : Tracked s) (hcalm : s.Outside a → s.NoRemoval)
    (hstep : stepRemove s a = some t) : Tracked t ∧ Freed s t (freedBy s (.remove a)) := by
  have hserving : ∀ c stage current, s.acceptor ≠ .killRemoving c stage current := by
    intro c stage current hacceptor
    have hserving := h.serving
    rw [hacceptor] at hserving
    contradiction
  obtain ⟨c, stage, hr, hafter⟩ := stepRemove_cases hserving (fun _ => h.notStarted) hstep
  obtain ⟨s', after, hremove, hnext, hfreed⟩ := h.removeStep hr fun hfind => hcalm fun r hr' => by
    rw [hr.removal] at hr'
    rw [← Option.some.inj hr', hfind]
  rw [hafter s' after hremove, freedBy, hr.removal]
  exact ⟨hnext, hfreed⟩

end GeoNS.Socket.Lifecycle
