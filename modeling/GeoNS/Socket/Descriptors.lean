import GeoNS.Socket.Connections

/-!
# Descriptors and connections

The invariant of the calm runs: each socket is in the table at the number of
its connection until it is closed, one thread works for a connection, and the
list holds the connections that have a thread.
-/

namespace GeoNS.Socket

open SlotTable

def State.Closed (s : State) (c : Nat) : Prop :=
  ∃ u ∈ s.uses, u.connection = c ∧ u.call = .close

-- ---------------------------------------------------------------------------
-- The invariant
-- ---------------------------------------------------------------------------

def Role.Past : Role → Prop
  | .none | .leaving | .unlinked => True
  | _ => False

/-- The accept thread is not removing connections that live. -/
def Acceptor.Serving : Acceptor → Prop
  | .killing (some _) | .killRemoving .. => False
  | _ => True

/-- The table has each accepted socket at its number until it is closed, and
the calls so far were made on the right sockets. -/
structure SocketsOk (s : State) : Prop where
  table : ∀ n c, slot s.table n = some (.socket c) →
    (s.connections c).established ∧ (s.connections c).fd = some n
  kept : ∀ c, (s.connections c).established → ¬ s.Closed c →
    ∃ n, (s.connections c).fd = some n ∧ slot s.table n = some (.socket c)
  gone : ∀ c, s.Closed c → ∀ n, slot s.table n ≠ some (.socket c)
  own : ∀ u ∈ s.uses, u.found = some (.socket u.connection)
  last : s.uses.Pairwise fun u v => u.connection = v.connection → u.call ≠ .close

/-- At most one thread works for the connection, and a socket that was accepted
is closed exactly when that thread is done with it. -/
structure ConnectionOk (s : State) (c : Nat) : Prop where
  born : s.count ≤ c → s.connections c = .fresh ∧ s.acceptor.role c = .none
  alone : (s.connections c).thread ≠ .notStarted → s.acceptor.role c = .none
  waiting : s.role c = .waiting → (s.connections c).established = false
  holding : s.role c = .holding → (s.connections c).established
  closed : s.Closed c ↔ (s.connections c).established ∧ (s.role c).Past
  calls : ∀ calls result, (s.connections c).thread = .calling calls result →
    .close ∉ calls ∧ result ≠ .fault

structure Inv (s : State) : Prop where
  safe : s.crashed = false
  serving : s.acceptor.Serving
  listening : s.acceptor ≠ .ended → slot s.table s.serverFd = some .other
  sockets : SocketsOk s
  connections : ∀ c, ConnectionOk s c
  list : ∃ l, ListOk s l

-- ---------------------------------------------------------------------------
-- One connection
-- ---------------------------------------------------------------------------

structure Local (c : Nat) (s t : State) : Prop where
  connections : ∀ d, d ≠ c → t.connections d = s.connections d
  role : ∀ d, d ≠ c → t.acceptor.role d = s.acceptor.role d
  closed : ∀ d, d ≠ c → (t.Closed d ↔ s.Closed d)
  count : s.count ≤ t.count

theorem Local.refl (c : Nat) (s : State) : Local c s s :=
  ⟨fun _ _ => rfl, fun _ _ => rfl, fun _ _ => Iff.rfl, Nat.le_refl _⟩

theorem Local.trans (h : Local c s t) (h' : Local c t u) : Local c s u where
  connections d hd := (h'.connections d hd).trans (h.connections d hd)
  role d hd := (h'.role d hd).trans (h.role d hd)
  closed d hd := (h'.closed d hd).trans (h.closed d hd)
  count := h.count.trans h'.count

theorem ConnectionOk.local (h : ConnectionOk s d) (hl : Local c s t) (hd : d ≠ c) :
    ConnectionOk t d := by
  have hrole : t.role d = s.role d := by
    unfold State.role
    rw [hl.connections d hd, hl.role d hd]
  constructor
  · intro hcount
    rw [hl.connections d hd, hl.role d hd]
    exact h.born (hl.count.trans hcount)
  · rw [hl.connections d hd, hl.role d hd]
    exact h.alone
  · rw [hrole, hl.connections d hd]
    exact h.waiting
  · rw [hrole, hl.connections d hd]
    exact h.holding
  · rw [hrole, hl.connections d hd, hl.closed d hd]
    exact h.closed
  · rw [hl.connections d hd]
    exact h.calls

theorem connectionOk_of_local (h : ∀ d, ConnectionOk s d) (hl : Local c s t)
    (hc : ConnectionOk t c) (d : Nat) : ConnectionOk t d := by
  by_cases hd : d = c
  · rwa [hd]
  · exact (h d).local hl hd

theorem connectionOk_of_open {s : State} (hcount : c < s.count) (hopen : ¬ s.Closed c)
    (hpast : ¬ (s.role c).Past)
    (halone : (s.connections c).thread ≠ .notStarted → s.acceptor.role c = .none)
    (hwaiting : s.role c = .waiting → (s.connections c).established = false)
    (hholding : s.role c = .holding → (s.connections c).established)
    (hcalls : ∀ calls result, (s.connections c).thread = .calling calls result →
      .close ∉ calls ∧ result ≠ .fault) : ConnectionOk s c where
  born h := absurd hcount (Nat.not_lt_of_le h)
  alone := halone
  waiting := hwaiting
  holding := hholding
  closed := iff_of_false hopen fun h => hpast h.2
  calls := hcalls

theorem ConnectionOk.notStarted (h : ConnectionOk s c) (hrole : s.acceptor.role c ≠ .none) :
    (s.connections c).thread = .notStarted := by
  by_contra hstarted
  exact hrole (h.alone hstarted)

theorem ConnectionOk.lt_count (h : ConnectionOk s c) (hrole : s.role c ≠ .none) : c < s.count := by
  by_contra hcount
  obtain ⟨hfresh, hnone⟩ := h.born (Nat.le_of_not_lt hcount)
  exact hrole (by simp [State.role, hfresh, Connection.fresh, hnone])

theorem ConnectionOk.role_acceptor (h : ConnectionOk s c) (hrole : s.acceptor.role c ≠ .none) :
    s.role c = s.acceptor.role c := by
  rw [State.role, if_pos (h.notStarted hrole)]

-- ---------------------------------------------------------------------------
-- The table
-- ---------------------------------------------------------------------------

theorem SocketsOk.frame (h : SocketsOk s)
    (htable : ∀ n c, slot t.table n = some (.socket c) ↔ slot s.table n = some (.socket c))
    (huses : t.uses = s.uses) (hfd : ∀ c, (t.connections c).fd = (s.connections c).fd)
    (hestablished : ∀ c, (t.connections c).established = (s.connections c).established) :
    SocketsOk t := by
  have hclosed (c : Nat) : t.Closed c ↔ s.Closed c := by rw [State.Closed, State.Closed, huses]
  constructor
  · simpa only [htable, hfd, hestablished] using h.table
  · simpa only [htable, hfd, hestablished, hclosed] using h.kept
  · simpa only [ne_eq, htable, hclosed] using h.gone
  · simpa only [huses] using h.own
  · simpa only [huses] using h.last

theorem SocketsOk.found (h : SocketsOk s) (hestablished : (s.connections c).established)
    (hopen : ¬ s.Closed c) : s.found c = some (.socket c) := by
  obtain ⟨n, hfd, hslot⟩ := h.kept c hestablished hopen
  rw [State.found, hfd, Option.bind_some, hslot]

theorem closed_useFd (s : State) (c : Nat) (call : FdCall) (d : Nat) :
    (s.useFd c call).Closed d ↔ s.Closed d ∨ d = c ∧ call = .close := by
  simp only [State.Closed, State.useFd, List.mem_append, List.mem_singleton, or_and_right, exists_or,
    exists_eq_left]
  rw [eq_comm (a := c)]

theorem slot_useFd {s : State} (hfd : (s.connections c).fd = some n) (call : FdCall) (m : Nat) :
    slot (s.useFd c call).table m = if call = .close ∧ m = n then none else slot s.table m := by
  cases call <;> simp [State.useFd, hfd, slot_free]

theorem SocketsOk.useFd (h : SocketsOk s) (hestablished : (s.connections c).established)
    (hopen : ¬ s.Closed c) (call : FdCall) : SocketsOk (s.useFd c call) := by
  obtain ⟨n, hfd, hslot⟩ := h.kept c hestablished hopen
  have hfound := h.found hestablished hopen
  have htable := slot_useFd hfd call
  have hclosed := closed_useFd s c call
  constructor
  · intro m d hm
    rw [htable] at hm
    split at hm
    · contradiction
    · exact h.table m d hm
  · intro d hd hnot
    rw [hclosed, not_or] at hnot
    obtain ⟨m, hm, hslot'⟩ := h.kept d hd hnot.1
    refine ⟨m, hm, ?_⟩
    rw [htable, if_neg, hslot']
    rintro ⟨rfl, rfl⟩
    have heq : d = c := by simpa [hslot] using hslot'.symm
    exact hnot.2 ⟨heq, rfl⟩
  · intro d hd m hm
    rw [htable] at hm
    split at hm
    · contradiction
    case isFalse hnot =>
      rcases (hclosed d).mp hd with hd | ⟨rfl, rfl⟩
      · exact h.gone d hd m hm
      · have hnumber := (h.table m d hm).2
        rw [hfd, Option.some.injEq] at hnumber
        exact hnot ⟨rfl, hnumber.symm⟩
  · intro u hu
    rcases List.mem_append.mp hu with hu | hu
    · exact h.own u hu
    · rw [List.mem_singleton.mp hu]
      exact hfound
  · refine List.pairwise_append.mpr ⟨h.last, List.pairwise_singleton _ _, fun u hu v hv => ?_⟩
    rw [List.mem_singleton.mp hv]
    rintro rfl hclose
    exact hopen ⟨u, hu, rfl, hclose⟩


theorem SocketsOk.accept {s t : State} (h : SocketsOk s)
    (hestablished : (s.connections c).established = false) (hopen : ¬ s.Closed c)
    (htable : t.table = SlotTable.insert s.table (.socket c)) (huses : t.uses = s.uses)
    (hsocket : (t.connections c).established ∧ (t.connections c).fd = some (lowestFree s.table))
    (hothers : ∀ d, d ≠ c → t.connections d = s.connections d) : SocketsOk t := by
  have hclosed (d : Nat) : t.Closed d ↔ s.Closed d := by rw [State.Closed, State.Closed, huses]
  constructor
  · intro n d hn
    rw [htable, slot_insert] at hn
    split at hn
    case isTrue hlowest =>
      obtain rfl : c = d := by simpa using hn
      rw [hlowest]
      exact hsocket
    case isFalse =>
      have hd : d ≠ c := by
        rintro rfl
        simpa [hestablished] using (h.table n d hn).1
      rw [hothers d hd]
      exact h.table n d hn
  · intro d hd hnot
    rw [hclosed] at hnot
    by_cases hdc : d = c
    · rw [hdc]
      refine ⟨lowestFree s.table, hsocket.2, ?_⟩
      rw [htable, slot_insert, if_pos rfl]
    · rw [hothers d hdc] at hd ⊢
      obtain ⟨n, hfd, hslot⟩ := h.kept d hd hnot
      refine ⟨n, hfd, ?_⟩
      rw [htable, slot_insert, if_neg, hslot]
      rintro rfl
      simp [slot_lowestFree] at hslot
  · intro d hd n hn
    rw [htable, slot_insert] at hn
    split at hn
    · obtain rfl : c = d := by simpa using hn
      exact hopen ((hclosed c).mp hd)
    · exact h.gone d ((hclosed d).mp hd) n hn
  · simpa only [huses] using h.own
  · simpa only [huses] using h.last

end GeoNS.Socket
