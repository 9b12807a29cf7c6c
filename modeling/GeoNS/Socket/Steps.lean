import GeoNS.Http.Closing
import GeoNS.Socket.Descriptors

/-!
# The steps of the threads

Each step of the accept thread and of `handle_client`, up to a removal, keeps
the invariant.
-/

namespace GeoNS.Socket

open SlotTable

-- ---------------------------------------------------------------------------
-- Steps of a client's thread
-- ---------------------------------------------------------------------------

def Thread.Running : Thread → Prop
  | .buffer | .peek | .callback | .calling .. => True
  | _ => False

theorem Thread.Running.role_eq {thread : Thread} (h : thread.Running) : thread.role = .holding := by
  cases thread <;> first | rfl | exact h.elim

theorem Thread.Running.ne_notStarted {thread : Thread} (h : thread.Running) :
    thread ≠ .notStarted := by
  rintro rfl
  exact h

theorem outside_of_running {s : State} (h : (s.connections c).thread.Running) :
    s.Outside (some c) := by
  rintro r hr
  cases hthread : (s.connections c).thread <;> simp [State.removal, hthread] at hr
  rw [hthread] at h
  exact h.elim

theorem removal_setThread_running {s : State} (hrunning : (s.connections c).thread.Running) {thread : Thread}
    (hthread : thread.Running ∨ thread = .removing .find) (a : Option Nat) :
    (s.setThread c thread).removal a = s.removal a ∨ s.Outside a ∧ (s.setThread c thread).Outside a := by
  by_cases ha : a = some c
  · refine .inr (ha ▸ ⟨outside_of_running hrunning, ?_⟩)
    rcases hthread with hrunning' | rfl
    · exact outside_of_running (by simpa using hrunning')
    · simp [State.Outside, State.removal]
  · exact .inl (removal_setThread s c thread a ha)

theorem role_of_running {s : State} (h : (s.connections c).thread.Running) : s.role c = .holding := by
  rw [State.role, if_neg h.ne_notStarted, h.role_eq]

theorem Inv.established (h : Inv s) (hrole : s.role c = .holding) :
    (s.connections c).established ∧ ¬ s.Closed c := by
  have hc := h.connections c
  refine ⟨hc.holding hrole, fun hclosed => ?_⟩
  have hpast := (hc.closed.mp hclosed).2
  rw [hrole] at hpast
  exact hpast

theorem Inv.live (h : Inv s) (hrole : (s.role c).Linked) : (s.connections c).freed = false := by
  obtain ⟨l, hl⟩ := h.list
  exact hl.live c ((hl.mem c).mpr hrole)

theorem Inv.reading (h : Inv s) (hrole : (s.role c).Linked) (t : State) : s.reading c t = t := by
  rw [State.reading, if_neg (by simp [h.live hrole])]

theorem local_modify (s : State) (c : Nat) (f : Connection → Connection) :
    Local c s (s.modify c f) where
  connections _ hd := Function.update_of_ne hd _ _
  role _ _ := rfl
  closed _ _ := Iff.rfl
  count := Nat.le_refl _

theorem local_setThread (s : State) (c : Nat) (thread : Thread) : Local c s (s.setThread c thread) :=
  local_modify s c _

theorem local_useFd (s : State) (c : Nat) (call : FdCall) : Local c s (s.useFd c call) where
  connections _ _ := rfl
  role _ _ := rfl
  closed d hd := by simp [closed_useFd, hd]
  count := Nat.le_refl _

theorem Inv.listening_useFd (h : Inv s) (hrole : s.role c = .holding) (call : FdCall)
    (hended : s.acceptor ≠ .ended) : slot (s.useFd c call).table s.serverFd = some .other := by
  obtain ⟨hestablished, hopen⟩ := h.established hrole
  obtain ⟨n, hfd, hslot⟩ := h.sockets.kept c hestablished hopen
  have hserver := h.listening hended
  rw [slot_useFd hfd, if_neg, hserver]
  rintro ⟨-, rfl⟩
  simp [hslot] at hserver

/-- A call of a thread on the number it has, other than `close`. -/
theorem Inv.useFd (h : Inv s) (hrole : s.role c = .holding) (hcall : call ≠ .close) :
    Inv (s.useFd c call) := by
  obtain ⟨hestablished, hopen⟩ := h.established hrole
  obtain ⟨l, hl⟩ := h.list
  constructor
  · exact h.safe
  · exact h.serving
  · exact h.listening_useFd hrole call
  · exact h.sockets.useFd hestablished hopen call
  · refine connectionOk_of_local h.connections (local_useFd s c call) ?_
    obtain ⟨hborn, halone, hwaiting, hholding, hclosed, hcalls⟩ := h.connections c
    refine ⟨hborn, halone, hwaiting, hholding, ?_, hcalls⟩
    rw [closed_useFd, hclosed]
    simp only [hcall, and_false, or_false]
    rfl
  · exact ⟨l, hl.frame rfl rfl (fun _ => rfl) (fun _ => Iff.rfl) fun _ => .inl rfl⟩

theorem setBuffer_same (s : State) (c : Nat) (hasBuffer : Bool) (d : Nat) :
    let connection := s.connections d
    let connection' := (s.modify c fun connection => { connection with hasBuffer }).connections d
    connection'.fd = connection.fd ∧ connection'.established = connection.established ∧
      connection'.freed = connection.freed ∧ connection'.thread = connection.thread := by
  by_cases hd : d = c <;> simp [State.modify, hd]

theorem sameThreads_setBuffer (s : State) (c : Nat) (hasBuffer : Bool) :
    SameThreads s (s.modify c fun connection => { connection with hasBuffer }) :=
  ⟨rfl, fun d => (setBuffer_same s c hasBuffer d).2.2.2⟩

theorem Inv.setBuffer (h : Inv s) (hcount : c < s.count) (hasBuffer : Bool) :
    Inv (s.modify c fun connection => { connection with hasBuffer }) := by
  have hsame := setBuffer_same s c hasBuffer
  have hthreads := sameThreads_setBuffer s c hasBuffer
  obtain ⟨l, hl⟩ := h.list
  constructor
  · exact h.safe
  · exact h.serving
  · exact h.listening
  · exact h.sockets.frame (fun _ _ => Iff.rfl) rfl (fun d => (hsame d).1) fun d => (hsame d).2.1
  · refine connectionOk_of_local h.connections (local_modify s c _) ?_
    obtain ⟨hborn, halone, hwaiting, hholding, hclosed, hcalls⟩ := h.connections c
    constructor
    · intro hcount'
      exact absurd hcount (Nat.not_lt_of_le hcount')
    · rwa [hthreads.thread]
    · rwa [hthreads.role, (hsame c).2.1]
    · rwa [hthreads.role, (hsame c).2.1]
    · rw [hthreads.role, (hsame c).2.1]
      exact hclosed
    · rwa [hthreads.thread]
  · exact ⟨l, hl.frame rfl rfl (fun d => (hsame d).2.2.1) (fun d => by rw [hthreads.role])
      fun a => .inl (hthreads.removal a)⟩

theorem Inv.setThread (h : Inv s) (hrunning : (s.connections c).thread.Running) {thread : Thread}
    (hthread : thread.Running ∨ thread = .removing .find)
    (hcalls : ∀ calls result, thread = .calling calls result → .close ∉ calls ∧ result ≠ .fault) :
    Inv (s.setThread c thread) := by
  have hold := role_of_running hrunning
  obtain ⟨hestablished, hopen⟩ := h.established hold
  have hnew : (s.setThread c thread).role c = .holding ∨ (s.setThread c thread).role c = .finding := by
    rw [role_setThread, if_pos rfl]
    rcases hthread with hrunning' | rfl
    · rw [if_neg hrunning'.ne_notStarted, hrunning'.role_eq]
      exact .inl rfl
    · exact .inr rfl
  obtain ⟨l, hl⟩ := h.list
  constructor
  · exact h.safe
  · exact h.serving
  · exact h.listening
  · refine h.sockets.frame (fun _ _ => Iff.rfl) rfl (fun d => ?_) fun d => ?_
    · by_cases hd : d = c <;> simp [hd]
    · by_cases hd : d = c <;> simp [hd]
  · refine connectionOk_of_local h.connections (local_setThread s c thread) ?_
    have hcount := (h.connections c).lt_count (by simp [hold])
    have halone := (h.connections c).alone hrunning.ne_notStarted
    refine connectionOk_of_open hcount hopen ?_ (fun _ => halone) ?_ ?_ ?_
    · rcases hnew with hnew | hnew <;> simp [hnew, Role.Past]
    · rcases hnew with hnew | hnew <;> simp [hnew]
    · simpa using fun _ => hestablished
    · simpa using hcalls
  · refine ⟨l, hl.frame rfl rfl (fun d => ?_) (fun d => ?_) fun a => ?_⟩
    · by_cases hd : d = c <;> simp [hd]
    · by_cases hd : d = c
      · rw [hd, hold]
        rcases hnew with hnew | hnew <;> simp [hnew, Role.Linked]
      · rw [role_setThread, if_neg hd]
    · exact removal_setThread_running hrunning hthread a

-- ---------------------------------------------------------------------------
-- Steps of the accept thread
-- ---------------------------------------------------------------------------

theorem local_acceptor {s : State} {acceptor : Acceptor}
    (h : ∀ d, d ≠ c → acceptor.role d = s.acceptor.role d) : Local c s { s with acceptor } where
  connections _ _ := rfl
  role := h
  closed _ _ := Iff.rfl
  count := Nat.le_refl _

def Acceptor.WorksFor (acceptor : Acceptor) (c : Nat) (r : Role) : Prop :=
  ∀ d, acceptor.role d = if c = d then r else .none

theorem Acceptor.WorksFor.self {acceptor : Acceptor} (h : acceptor.WorksFor c r) :
    acceptor.role c = r :=
  (h c).trans (if_pos rfl)

theorem Acceptor.WorksFor.others {acceptor acceptor' : Acceptor} (h : acceptor.WorksFor c r)
    (h' : acceptor'.WorksFor c r') (d : Nat) (hd : d ≠ c) : acceptor'.role d = acceptor.role d := by
  rw [h, h', if_neg (Ne.symm hd), if_neg (Ne.symm hd)]

theorem Inv.setAcceptor (h : Inv s) (acceptor : Acceptor) (hserving : acceptor.Serving)
    (hlistening : s.acceptor ≠ .ended) (hold : s.acceptor.WorksFor c r)
    (hnew : acceptor.WorksFor c r') (hrole : r = .waiting ∨ r = .holding)
    (hrole' : r' = .finding ∨ r = .holding ∧ r' = .holding) (hout : s.Outside none)
    (hout' : State.Outside { s with acceptor } none) : Inv { s with acceptor } := by
  have hc := h.connections c
  have hne : s.acceptor.role c ≠ .none := by
    rw [hold.self]
    rcases hrole with rfl | rfl <;> simp
  have hthread := hc.notStarted hne
  have hbefore : s.role c = r := (hc.role_acceptor hne).trans hold.self
  have hafter : State.role { s with acceptor } c = r' := by
    rw [State.role, if_pos hthread, hnew.self]
  have hopen : ¬ s.Closed c := by
    rw [hc.closed, hbefore]
    rcases hrole with rfl | rfl <;> exact fun hpast => hpast.2
  obtain ⟨l, hlist⟩ := h.list
  constructor
  · exact h.safe
  · exact hserving
  · exact fun _ => h.listening hlistening
  · exact h.sockets.frame (fun _ _ => Iff.rfl) rfl (fun _ => rfl) fun _ => rfl
  · refine connectionOk_of_local h.connections (local_acceptor (hold.others hnew)) ?_
    refine connectionOk_of_open (hc.lt_count ?_) hopen ?_ ?_ ?_ ?_ hc.calls
    · rwa [hc.role_acceptor hne]
    · rw [hafter]
      rcases hrole' with rfl | ⟨-, rfl⟩ <;> exact id
    · exact fun hstarted => absurd hthread hstarted
    · rw [hafter]
      rcases hrole' with rfl | ⟨-, rfl⟩ <;> simp
    · rw [hafter]
      rintro rfl
      rcases hrole' with hfinding | ⟨rfl, -⟩
      · contradiction
      · exact hc.holding hbefore
  · refine ⟨l, hlist.frame rfl rfl (fun _ => rfl) (fun d => ?_) fun a => ?_⟩
    · by_cases hd : d = c
      · rw [hd, hbefore, hafter]
        rcases hrole with rfl | rfl <;> rcases hrole' with rfl | ⟨-, rfl⟩ <;> exact Iff.rfl
      · simp only [State.role, hold.others hnew d hd]
    · cases a with
      | none => exact .inr ⟨hout, hout'⟩
      | some d => exact .inl rfl

theorem Inv.outside (h : Inv s) (hcalm : s.NoRemoval) (a : Option Nat) : s.Outside a :=
  hcalm.outside (fun d hd => ((h.connections d).born hd).1) a

theorem Inv.length_le (h : Inv s) (hl : ListOk s l) : l.length ≤ s.count := by
  refine hl.length_le fun c hc => (h.connections c).lt_count ?_
  rintro hnone
  rwa [hnone] at hc

theorem Inv.memalloc (h : Inv s) (hcalm : s.NoRemoval) (hstep : stepMemalloc s true = some t) :
    Inv t := by
  obtain ⟨l, hl⟩ := h.list
  have hc := h.connections s.count
  have hfresh := (hc.born (Nat.le_refl _)).1
  obtain ⟨hidle, next, head, rfl, hlist⟩ :=
    hl.memalloc hcalm (fun d hd => (h.connections d).born hd) (h.length_le hl) hstep
  have hopen : ¬ s.Closed s.count := by
    rw [hc.closed, hfresh]
    simp [Connection.fresh]
  have hold : s.acceptor.WorksFor s.count .none := by
    rw [hidle]
    exact fun d => (ite_self _).symm
  have hnew : (Acceptor.accepting s.count).WorksFor s.count .waiting := fun _ => rfl
  constructor
  · exact h.safe
  · exact trivial
  · intro _
    exact h.listening (by simp [hidle])
  · exact h.sockets.frame (fun _ _ => Iff.rfl) rfl (fun _ => rfl) fun _ => rfl
  · refine connectionOk_of_local (c := s.count) h.connections ?_ ?_
    · exact ⟨fun _ _ => rfl, hold.others hnew, fun _ _ => Iff.rfl, Nat.le_succ _⟩
    · refine connectionOk_of_open (Nat.lt_succ_self _) hopen ?_ ?_ ?_ ?_ hc.calls
      · simp [State.role, hfresh, Connection.fresh, hnew.self, Role.Past]
      · simp [hfresh, Connection.fresh]
      · simp [hfresh, Connection.fresh]
      · simp [State.role, hfresh, Connection.fresh, hnew.self]
  · exact ⟨l ++ [s.count], hlist⟩

theorem Inv.rest (h : Inv s) {acceptor : Acceptor} (hserving : acceptor.Serving)
    (hlistening : acceptor ≠ .ended → s.acceptor ≠ .ended)
    (hrole : ∀ d, acceptor.role d = s.acceptor.role d) (hout : s.Outside none)
    (hout' : State.Outside { s with acceptor } none) : Inv { s with acceptor } := by
  obtain ⟨l, hl⟩ := h.list
  constructor
  · exact h.safe
  · exact hserving
  · exact fun hended => h.listening (hlistening hended)
  · exact h.sockets.frame (fun _ _ => Iff.rfl) rfl (fun _ => rfl) fun _ => rfl
  · exact fun d => (h.connections d).local (c := d + 1) (local_acceptor fun d _ => hrole d) (by simp)
  · refine ⟨l, hl.frame rfl rfl (fun _ => rfl) (fun d => ?_) fun a => ?_⟩
    · simp only [State.role, hrole]
    · cases a with
      | none => exact .inr ⟨hout, hout'⟩
      | some d => exact .inl rfl

theorem Inv.giveUp (h : Inv s) (hcalm : s.head = none) (hstep : stepMemalloc s false = some t) :
    Inv t := by
  unfold stepMemalloc at hstep
  split at hstep
  case h_2 => contradiction
  case h_1 hidle =>
  obtain rfl : { s with acceptor := .killing s.head } = t := Option.some.inj hstep
  refine h.rest ?_ (by simp [hidle]) (fun d => by rw [hidle]; rfl) ?_ ?_
  · rw [hcalm]
    trivial
  · simp [State.Outside, State.removal, hidle]
  · simp [State.Outside, State.removal]

theorem Inv.accept (h : Inv s) (hstep : stepAccept s ok = some t) : Inv t := by
  unfold stepAccept at hstep
  split at hstep
  case h_2 => contradiction
  case h_1 c hacceptor =>
  have hold : s.acceptor.WorksFor c .waiting := by
    rw [hacceptor]
    exact fun _ => rfl
  cases ok with
  | false =>
    obtain rfl := Option.some.inj hstep
    refine h.setAcceptor _ trivial (by simp [hacceptor]) hold (fun _ => rfl) (.inl rfl) (.inl rfl) ?_ ?_
    · simp [State.Outside, State.removal, hacceptor]
    · simp [State.Outside, State.removal]
  | true =>
    obtain rfl := Option.some.inj hstep
    have hnew : (Acceptor.clientData c).WorksFor c .holding := fun _ => rfl
    have hc := h.connections c
    have hne : s.acceptor.role c ≠ .none := by simp [hold.self]
    have hthread := hc.notStarted hne
    have hrole : s.role c = .waiting := (hc.role_acceptor hne).trans hold.self
    have hestablished := hc.waiting hrole
    have hopen : ¬ s.Closed c := by simp [hc.closed, hestablished]
    obtain ⟨l, hl⟩ := h.list
    constructor
    · exact h.safe
    · exact trivial
    · intro _
      have hserver := h.listening (by simp [hacceptor])
      rw [slot_insert, if_neg]
      · exact hserver
      · intro hlowest
        have hslot := slot_lowestFree s.table
        rw [← hlowest] at hslot
        have hboth := hserver.symm.trans hslot
        contradiction
    · refine h.sockets.accept hestablished hopen rfl rfl ?_ ?_
      · simp [State.modify]
      · exact fun d hd => Function.update_of_ne hd _ _
    · refine connectionOk_of_local (c := c) h.connections ?_ ?_
      · exact ⟨fun d hd => Function.update_of_ne hd _ _, hold.others hnew, fun _ _ => Iff.rfl,
          Nat.le_refl _⟩
      · refine connectionOk_of_open (hc.lt_count (by simp [hrole])) hopen ?_ ?_ ?_ ?_ ?_
        · simp [State.modify, State.role, hthread, hnew.self, Role.Past]
        · simp [State.modify, hthread]
        · simp [State.modify, State.role, hthread, hnew.self]
        · simp [State.modify]
        · simp [State.modify, hthread]
    · refine ⟨l, hl.frame rfl rfl (fun d => ?_) (fun d => ?_) fun a => ?_⟩
      · by_cases hd : d = c <;> simp [State.modify, hd]
      · by_cases hd : d = c
        · rw [hd, hrole]
          simp [State.modify, State.role, hthread, hnew.self, Role.Linked]
        · simp [State.modify, State.role, hd, hold.others hnew d hd]
      · cases a with
        | none => simp [State.Outside, State.removal, hacceptor]
        | some d =>
          refine .inl ?_
          by_cases hd : d = c <;> simp [State.modify, State.removal, hd]

theorem Inv.clientData (h : Inv s) (hstep : stepClientData s ok = some t) : Inv t := by
  unfold stepClientData at hstep
  split at hstep
  case h_2 => contradiction
  case h_1 c hacceptor =>
  have hold : s.acceptor.WorksFor c .holding := by
    rw [hacceptor]
    exact fun _ => rfl
  have hout : s.Outside none := by simp [State.Outside, State.removal, hacceptor]
  have hlistening : s.acceptor ≠ .ended := by simp [hacceptor]
  obtain rfl := Option.some.inj hstep
  cases ok with
  | false =>
    refine h.setAcceptor (.removing c .find) trivial hlistening hold (fun _ => rfl)
      (.inr rfl) (.inl rfl) hout ?_
    simp [State.Outside, State.removal]
  | true =>
    refine h.setAcceptor (.create c) trivial hlistening hold (fun _ => rfl) (.inr rfl)
      (.inr ⟨rfl, rfl⟩) hout ?_
    simp [State.Outside, State.removal]

theorem Inv.create (h : Inv s) (hstep : stepCreate s ok = some t) : Inv t := by
  unfold stepCreate at hstep
  split at hstep
  case h_2 => contradiction
  case h_1 c hacceptor =>
  have hold : s.acceptor.WorksFor c .holding := by
    rw [hacceptor]
    exact fun _ => rfl
  have hout : s.Outside none := by simp [State.Outside, State.removal, hacceptor]
  have hlistening : s.acceptor ≠ .ended := by simp [hacceptor]
  cases ok with
  | false =>
    obtain rfl := Option.some.inj hstep
    refine h.setAcceptor _ trivial hlistening hold (fun _ => rfl) (.inr rfl) (.inl rfl) hout ?_
    simp [State.Outside, State.removal]
  | true =>
    obtain rfl := Option.some.inj hstep
    have hnew : Acceptor.idle.WorksFor c .none := fun _ => (ite_self _).symm
    have hc := h.connections c
    have hne : s.acceptor.role c ≠ .none := by simp [hold.self]
    have hrole : s.role c = .holding := (hc.role_acceptor hne).trans hold.self
    obtain ⟨hestablished, hopen⟩ := h.established hrole
    have hself : State.role ({ s with acceptor := .idle }.setThread c .buffer) c = .holding := by
      rw [role_setThread, if_pos rfl]
      rfl
    obtain ⟨l, hl⟩ := h.list
    constructor
    · exact h.safe
    · exact trivial
    · exact fun _ => h.listening hlistening
    · refine h.sockets.frame (fun _ _ => Iff.rfl) rfl (fun d => ?_) fun d => ?_
      · by_cases hd : d = c <;> simp [hd]
      · by_cases hd : d = c <;> simp [hd]
    · refine connectionOk_of_local h.connections
        ((local_acceptor (hold.others hnew)).trans (local_setThread _ c .buffer)) ?_
      refine connectionOk_of_open (hc.lt_count (by simp [hrole])) hopen ?_ (fun _ => rfl) ?_ ?_ ?_
      · rw [hself]
        exact id
      · simp [hself]
      · simpa using fun _ => hestablished
      · simp
    · refine ⟨l, hl.frame rfl rfl (fun d => ?_) (fun d => ?_) fun a => ?_⟩
      · by_cases hd : d = c <;> simp [hd]
      · by_cases hd : d = c
        · rw [hd, hself, hrole]
        · rw [role_setThread, if_neg hd]
          simp only [State.role, hold.others hnew d hd]
      · cases a with
        | none => exact .inr ⟨hout, by simp [State.Outside, State.removal]⟩
        | some d =>
          by_cases hd : d = c
          · have hthread := hc.notStarted hne
            simp [State.Outside, State.removal, hd, hthread]
          · simp [State.removal, hd]

theorem Inv.setTable (h : Inv s) (table : Table Desc)
    (htable : ∀ n c, slot table n = some (.socket c) ↔ slot s.table n = some (.socket c))
    (hlistening : s.acceptor ≠ .ended → slot table s.serverFd = some .other) :
    Inv { s with table } := by
  obtain ⟨l, hl⟩ := h.list
  constructor
  · exact h.safe
  · exact h.serving
  · exact hlistening
  · exact h.sockets.frame htable rfl (fun _ => rfl) fun _ => rfl
  · exact fun d => (h.connections d).local (c := d + 1)
      ⟨fun _ _ => rfl, fun _ _ => rfl, fun _ _ => Iff.rfl, Nat.le_refl _⟩ (by simp)
  · exact ⟨l, hl.frame rfl rfl (fun _ => rfl) (fun _ => Iff.rfl) fun _ => .inl rfl⟩

theorem slot_free_other {table : Table Desc} (hn : slot table n = some .other) (m c : Nat) :
    slot (free table n) m = some (.socket c) ↔ slot table m = some (.socket c) := by
  rw [slot_free]
  by_cases hm : m = n
  · simp [hm, hn]
  · rw [if_neg hm]

theorem slot_insert_other (table : Table Desc) (m c : Nat) :
    slot (SlotTable.insert table .other) m = some (.socket c) ↔ slot table m = some (.socket c) := by
  rw [slot_insert]
  by_cases hm : m = lowestFree table
  · simp [hm, slot_lowestFree]
  · rw [if_neg hm]

theorem Inv.kill (h : Inv s) (hstep : stepKill s = some t) : Inv t := by
  have hserving := h.serving
  unfold stepKill at hstep
  split at hstep
  case h_1 hacceptor =>
    obtain rfl := Option.some.inj hstep
    have hserver := h.listening (by simp [hacceptor])
    have hended : Inv { s with acceptor := .ended } := by
      refine h.rest trivial (by simp) (fun d => by rw [hacceptor]; rfl) ?_ ?_
      · simp [State.Outside, State.removal, hacceptor]
      · simp [State.Outside, State.removal]
    exact hended.setTable (free s.table s.serverFd) (slot_free_other hserver)
      fun hended => absurd rfl hended
  case h_2 a hacceptor =>
    rw [hacceptor] at hserving
    exact hserving.elim
  case h_3 => contradiction

theorem Inv.openOther (h : Inv s) : Inv { s with table := SlotTable.insert s.table .other } := by
  refine h.setTable _ (slot_insert_other s.table) fun hended => ?_
  rw [slot_insert]
  split
  · rfl
  · exact h.listening hended

theorem Inv.closeOther (h : Inv s) (hn : slot s.table n = some .other)
    (hserver : n = s.serverFd → s.acceptor = .ended) : Inv { s with table := free s.table n } := by
  refine h.setTable _ (slot_free_other hn) fun hended => ?_
  rw [slot_free, if_neg]
  · exact h.listening hended
  · exact fun hfd => hended (hserver hfd.symm)

-- ---------------------------------------------------------------------------
-- The steps of handle_client
-- ---------------------------------------------------------------------------

theorem Thread.Running.of_eq {thread thread' : Thread} (h : thread = thread') (hrunning : thread'.Running) :
    thread.Running := h ▸ hrunning

theorem Inv.buffer (h : Inv s) (hstep : stepBuffer s c ok = some t) : Inv t := by
  unfold stepBuffer at hstep
  split at hstep
  case h_2 => contradiction
  case h_1 hthread =>
  have hrunning : (s.connections c).thread.Running := .of_eq hthread trivial
  have hrole := role_of_running hrunning
  rw [h.reading (by simp [hrole, Role.Linked])] at hstep
  obtain rfl := Option.some.inj hstep
  rw [modify_hasBuffer_thread]
  refine (h.setBuffer ((h.connections c).lt_count (by simp [hrole])) ok).setThread ?_ ?_ ?_
  · simpa [State.modify] using hrunning
  · cases ok
    · exact .inr rfl
    · exact .inl trivial
  · cases ok <;> simp

theorem Inv.peek (h : Inv s) (hstep : stepPeek s c got = some t) : Inv t := by
  unfold stepPeek at hstep
  split at hstep
  case h_2 => contradiction
  case h_1 hthread =>
  have hrunning : (s.connections c).thread.Running := .of_eq hthread trivial
  have hrole := role_of_running hrunning
  rw [h.reading (by simp [hrole, Role.Linked])] at hstep
  split at hstep
  · contradiction
  obtain rfl := Option.some.inj hstep
  refine (h.useFd hrole (by simp)).setThread hrunning ?_ ?_
  · cases got
    · exact .inr rfl
    · exact .inl trivial
  · cases got <;> simp

theorem close_mem_of_mem_filterMap {calls : List Http.Call}
    (h : .close ∈ calls.filterMap fdCallOf) : .close ∈ calls := by
  obtain ⟨call, hcall, hclose⟩ := List.mem_filterMap.mp h
  cases call <;> first | exact hcall | simp [fdCallOf] at hclose

theorem Inv.callback (h : Inv s) {server : Http.HttpServer}
    (hcalm : Http.LeavesOpen env server text bufferSize)
    (hstep : stepCallback server s c env text bufferSize = some t) : Inv t := by
  unfold stepCallback at hstep
  split at hstep
  case h_2 => contradiction
  case h_1 hthread =>
  have hrunning : (s.connections c).thread.Running := .of_eq hthread trivial
  have hrole := role_of_running hrunning
  dsimp only at hstep
  rw [h.reading (by simp [hrole, Role.Linked])] at hstep
  obtain rfl := Option.some.inj hstep
  refine h.setThread hrunning (.inl trivial) ?_
  rintro _ _ ⟨⟩
  rw [Http.leavesOpen_iff, Http.Run.Ends, not_or] at hcalm
  exact ⟨fun hclose => hcalm.2 (close_mem_of_mem_filterMap hclose), hcalm.1⟩

theorem Inv.call (h : Inv s) (hstep : stepCall s c = some t) : Inv t := by
  unfold stepCall at hstep
  split at hstep
  case h_2 => contradiction
  case h_1 call calls result hthread =>
  have hrunning : (s.connections c).thread.Running := .of_eq hthread trivial
  have hrole := role_of_running hrunning
  obtain ⟨hclose, hfault⟩ := (h.connections c).calls _ _ hthread
  rw [List.mem_cons, not_or] at hclose
  dsimp only at hstep
  rw [h.reading (by simp [hrole, Role.Linked]), ite_self] at hstep
  obtain rfl := Option.some.inj hstep
  refine (h.useFd hrole (Ne.symm hclose.1)).setThread hrunning (.inl trivial) ?_
  rintro calls' result' ⟨⟩
  exact ⟨hclose.2, hfault⟩

theorem Inv.consume (h : Inv s) (hstep : stepConsume s c = some t) : Inv t := by
  unfold stepConsume at hstep
  split at hstep
  case h_1 value hthread =>
    have hrunning : (s.connections c).thread.Running := .of_eq hthread trivial
    have hrole := role_of_running hrunning
    have hrecv : Inv (s.useFd c .recv) := h.useFd hrole (by simp)
    simp only [h.reading (c := c) (by simp [hrole, Role.Linked])] at hstep
    split at hstep
    · obtain rfl := Option.some.inj hstep
      exact hrecv.setThread hrunning (.inr rfl) (by simp)
    split at hstep
    · obtain rfl := Option.some.inj hstep
      exact hrecv.setThread hrunning (.inl trivial) (by simp)
    · obtain rfl := Option.some.inj hstep
      exact h.setThread hrunning (.inl trivial) (by simp)
  case h_2 hthread => exact absurd rfl ((h.connections c).calls _ _ hthread).2
  case h_3 => contradiction

end GeoNS.Socket
