import GeoNS.Runs
import GeoNS.Db.Faithful

/-!
# Concurrent callers of `insertNewNode`

Every caller runs its `SELECT` and its `INSERT` as two database steps, and the
steps of different callers come in any order. The table has no unique key for
nodes, so what keeps a pair unique is that no caller looks for it while
another one is between looking and inserting.
-/

namespace GeoNS.Db

open CString Runs

structure Args where
  serverAddr : Bytes
  nodeGatewayPort : UInt16
  deriving DecidableEq, Repr

abbrev Key := Bytes × Int

def Args.key (c : Args) : Key := (c.serverAddr, c.nodeGatewayPort.toNat)

def Args.row (c : Args) : Row := ⟨c.serverAddr, c.nodeGatewayPort.toNat, active⟩

def Args.Plain (c : Args) : Prop := Db.Plain c.serverAddr c.nodeGatewayPort

def Row.key (r : Row) : Key := (r.server, r.nodeGateway)

def keys (nodes : List Row) : List Key := nodes.map Row.key

/-- `gap` is after a `SELECT` that found nothing and before the `INSERT`. -/
inductive Phase
  | start
  | gap
  | done (r : UInt8)
  deriving DecidableEq, Repr

structure State (ι : Type) where
  nodes : List Row
  phase : ι → Phase

inductive Label (ι : Type)
  | select (i : ι)
  | insert (i : ι)

variable {ι : Type} [DecidableEq ι] {sq : Sqlite} {args : ι → Args}

def State.setPhase (s : State ι) (i : ι) (p : Phase) : State ι :=
  { s with phase := Function.update s.phase i p }

@[simp] theorem State.setPhase_nodes (s : State ι) (i : ι) (p : Phase) :
    (s.setPhase i p).nodes = s.nodes := rfl

/-- One database step of a caller; the database calls go through. -/
def step (sq : Sqlite) (args : ι → Args) (s : State ι) : Label ι → Option (State ι)
  | .select i =>
    if s.phase i = .start then
      match selectNode sq .ok ⟨false, s.nodes⟩ (args i).serverAddr (args i).nodeGatewayPort with
      | .error => some (s.setPhase i (.done 0))
      | .row => some (s.setPhase i (.done 2))
      | .noRow => some (s.setPhase i .gap)
    else none
  | .insert i =>
    if s.phase i = .gap then
      let (r, db) :=
        insertRow sq .ok ⟨false, s.nodes⟩ (args i).serverAddr (args i).nodeGatewayPort
      some { nodes := db.nodes, phase := Function.update s.phase i (.done r) }
    else none

def begin (nodes : List Row) : State ι := ⟨nodes, fun _ => .start⟩

/-- A caller whose `SELECT` already gives its result has run `insertNewNode`. -/
theorem insertNewNode_of_select (h : step sq args s (.select i) = some t) (hd : t.phase i = .done r) :
    insertNewNode sq .ok ⟨false, s.nodes⟩ (args i).serverAddr (args i).nodeGatewayPort =
      (r, ⟨false, t.nodes⟩) := by
  simp only [step] at h
  split at h
  case isFalse => contradiction
  cases hfound : selectNode sq .ok ⟨false, s.nodes⟩ (args i).serverAddr (args i).nodeGatewayPort <;>
    simp only [hfound, Option.some.injEq] at h <;> subst h <;>
    simp_all [State.setPhase, insertNewNode]

theorem insertNewNode_of_insert (hs : step sq args s (.select i) = some s')
    (h : step sq args s' (.insert i) = some t) (hd : t.phase i = .done r) :
    insertNewNode sq .ok ⟨false, s.nodes⟩ (args i).serverAddr (args i).nodeGatewayPort =
      (r, ⟨false, t.nodes⟩) := by
  simp only [step] at hs h
  split at hs
  case isFalse => contradiction
  split at h
  case isFalse => contradiction
  case isTrue hgap =>
    cases hfound : selectNode sq .ok ⟨false, s.nodes⟩ (args i).serverAddr (args i).nodeGatewayPort <;>
      simp only [hfound, Option.some.injEq] at hs <;> subst hs <;>
      simp only [State.setPhase, Function.update_self, reduceCtorEq] at hgap
    simp only [State.setPhase, Option.some.injEq] at h
    subst h
    simp only [Function.update_self, Phase.done.injEq] at hd
    rw [insertNewNode, hfound, ← hd]
    rfl

-- ---------------------------------------------------------------------------
-- What one step does
-- ---------------------------------------------------------------------------

theorem any_isNode_iff (nodes : List Row) (c : Args) :
    nodes.any (·.isNode c.serverAddr c.nodeGatewayPort.toNat) = true ↔ c.key ∈ keys nodes := by
  simp only [List.any_eq_true, Row.isNode, Bool.and_eq_true, beq_iff_eq, keys, List.mem_map,
    Row.key, Args.key, Prod.mk.injEq]

theorem step_select (hp : (args i).Plain) (h : step sq args s (.select i) = some t) :
    s.phase i = .start ∧
      ((args i).key ∈ keys s.nodes ∧ t = s.setPhase i (.done 2) ∨
        (args i).key ∉ keys s.nodes ∧ t = s.setPhase i .gap) := by
  simp only [step, selectNode_plain hp, Calls.ok, Bool.true_and, if_true] at h
  split at h
  case isFalse => contradiction
  case isTrue hstart =>
    refine ⟨hstart, ?_⟩
    by_cases hkey : (args i).key ∈ keys s.nodes
    · rw [if_pos ((any_isNode_iff s.nodes (args i)).mpr hkey)] at h
      exact .inl ⟨hkey, (Option.some.inj h).symm⟩
    · rw [if_neg (mt (any_isNode_iff s.nodes (args i)).mp hkey)] at h
      exact .inr ⟨hkey, (Option.some.inj h).symm⟩

theorem insertRow_args {c : Args} (hp : c.Plain) (sq : Sqlite) (nodes : List Row) :
    insertRow sq .ok ⟨false, nodes⟩ c.serverAddr c.nodeGatewayPort =
      if c.row.check then (1, ⟨false, nodes ++ [c.row]⟩) else (0, ⟨false, nodes⟩) := by
  rw [insertRow_plain hp]
  rfl

theorem step_insert (hp : (args i).Plain) (h : step sq args s (.insert i) = some t) :
    s.phase i = .gap ∧
      ((args i).row.check ∧ t = ⟨s.nodes ++ [(args i).row], Function.update s.phase i (.done 1)⟩ ∨
        ¬ (args i).row.check ∧ t = s.setPhase i (.done 0)) := by
  simp only [step, insertRow_args hp] at h
  split at h
  case isFalse => contradiction
  case isTrue hgap =>
    refine ⟨hgap, ?_⟩
    by_cases hcheck : (args i).row.check
    · simp only [if_pos hcheck] at h
      exact .inl ⟨hcheck, (Option.some.inj h).symm⟩
    · simp only [if_neg hcheck] at h
      exact .inr ⟨hcheck, (Option.some.inj h).symm⟩

-- ---------------------------------------------------------------------------
-- Runs
-- ---------------------------------------------------------------------------

/-- A `SELECT` comes when no other caller with the same pair is in its gap;
its texts are ones SQLite reads as meant. -/
def Undisturbed (args : ι → Args) (s : State ι) : Label ι → Prop
  | .select i => (args i).Plain ∧ ∀ j, s.phase j = .gap → (args j).key ≠ (args i).key
  | .insert _ => True

instance [Fintype ι] (args : ι → Args) (s : State ι) : (l : Label ι) →
    Decidable (Undisturbed args s l)
  | .select _ => inferInstanceAs (Decidable (Db.Plain _ _ ∧ ∀ _, _ → _))
  | .insert _ => inferInstanceAs (Decidable True)

/-- Of the callers with the pair `k`, `i` alone has the result 1, and all
others that are done have 2. -/
def OneInserted (args : ι → Args) (phase : ι → Phase) (k : Key) (i : ι) : Prop :=
  (args i).key = k ∧ phase i = .done 1 ∧
    ∀ j r, j ≠ i → (args j).key = k → phase j = .done r → r = 2

/-- No pair has two rows, and each pair inserted since `nodes` was inserted by
exactly one caller. -/
structure Unique (args : ι → Args) (nodes : List Row) (s : State ι) : Prop where
  nodup : (keys s.nodes).Nodup
  one : ∀ k ∈ keys s.nodes, k ∉ keys nodes → ∃ i, OneInserted args s.phase k i

/-- What holds throughout an undisturbed run that began with `nodes`. -/
structure Inv (args : ι → Args) (nodes : List Row) (s : State ι) : Prop where
  nodup : (keys s.nodes).Nodup
  kept : ∀ k ∈ keys nodes, k ∈ keys s.nodes
  gap : ∀ i, s.phase i = .gap → (args i).Plain ∧ (args i).key ∉ keys s.nodes
  alone : ∀ i j, s.phase i = .gap → s.phase j = .gap → (args i).key = (args j).key → i = j
  done : ∀ i r, s.phase i = .done r →
    r = 0 ∧ ¬ (args i).row.check ∨ r = 1 ∧ (args i).key ∈ keys s.nodes ∨
      r = 2 ∧ (args i).key ∈ keys s.nodes
  one : ∀ k ∈ keys s.nodes, k ∉ keys nodes → ∃ i, OneInserted args s.phase k i ∧ (args i).row.check

omit [DecidableEq ι] in
theorem Inv.begin (hnodup : (keys nodes).Nodup) : Inv args nodes (begin nodes) where
  nodup := hnodup
  kept _ hk := hk
  gap _ h := nomatch h
  alone _ _ h := nomatch h
  done _ _ h := nomatch h
  one _ hk hn := absurd hk hn

theorem row_eq_of_key {c d : Args} (h : c.key = d.key) : c.row = d.row :=
  congrArg (fun k : Key => (⟨k.1, k.2, active⟩ : Row)) h

theorem keys_append_row (nodes : List Row) (c : Args) :
    keys (nodes ++ [c.row]) = keys nodes ++ [c.key] := by
  simp [keys, Args.row, Row.key, Args.key]

theorem update_phase {phase : ι → Phase} (h : Function.update phase i p j = q) :
    j = i ∧ p = q ∨ j ≠ i ∧ phase j = q := by
  by_cases hji : j = i
  · subst hji
    exact .inl ⟨rfl, by simpa using h⟩
  · exact .inr ⟨hji, by simpa [hji] using h⟩

theorem gap_of_update {phase : ι → Phase} (h : Function.update phase i (.done r) j = .gap) :
    j ≠ i ∧ phase j = .gap :=
  (update_phase h).resolve_left fun ⟨_, h⟩ => nomatch h

/-- A caller that was not done and does not come out with a wrong result
leaves the one inserter as it was. -/
theorem OneInserted.update {phase : ι → Phase} (h : OneInserted args phase k i₀)
    (hi : ∀ r, phase i ≠ .done r) (hp : ∀ r, (args i).key = k → p = .done r → r = 2) :
    OneInserted args (Function.update phase i p) k i₀ := by
  obtain ⟨hk, hone, hothers⟩ := h
  have hne : i₀ ≠ i := by
    rintro rfl
    exact hi 1 hone
  refine ⟨hk, by rwa [Function.update_of_ne hne], fun j r hj hkey hdone => ?_⟩
  rcases update_phase hdone with ⟨rfl, hpr⟩ | ⟨-, hdone⟩
  · exact hp r hkey hpr
  · exact hothers j r hj hkey hdone

/-- A caller comes out without a row of its own: the pair was there, or a `CHECK`
refused the row. -/
theorem Inv.finished (hinv : Inv args nodes s) (hi : ∀ r, s.phase i ≠ .done r)
    (hr : r = 0 ∧ ¬ (args i).row.check ∨ r = 2 ∧ (args i).key ∈ keys s.nodes) :
    Inv args nodes (s.setPhase i (.done r)) where
  nodup := hinv.nodup
  kept := hinv.kept
  gap j hj := hinv.gap j (gap_of_update hj).2
  alone j l hj hl := hinv.alone j l (gap_of_update hj).2 (gap_of_update hl).2
  done j r' hj := by
    rcases update_phase hj with ⟨rfl, hr'⟩ | ⟨-, hj⟩
    · obtain rfl := Phase.done.inj hr'
      exact hr.imp_right .inr
    · exact hinv.done j r' hj
  one k hk hn := by
    obtain ⟨i₀, hone, hcheck⟩ := hinv.one k hk hn
    refine ⟨i₀, hone.update hi fun r' hkey hr' => ?_, hcheck⟩
    obtain rfl := Phase.done.inj hr'
    rcases hr with ⟨-, hrefused⟩ | ⟨htwo, -⟩
    · exact absurd (row_eq_of_key (hone.1.trans hkey.symm) ▸ hcheck) hrefused
    · exact htwo

/-- `SELECT` finds nothing, and no other caller with the pair is in its gap. -/
theorem Inv.opened (hinv : Inv args nodes s) (hstart : s.phase i = .start) (hp : (args i).Plain)
    (hkey : (args i).key ∉ keys s.nodes)
    (hfree : ∀ j, s.phase j = .gap → (args j).key ≠ (args i).key) :
    Inv args nodes (s.setPhase i .gap) where
  nodup := hinv.nodup
  kept := hinv.kept
  gap j hj := by
    rcases update_phase hj with ⟨rfl, -⟩ | ⟨-, hj⟩
    · exact ⟨hp, hkey⟩
    · exact hinv.gap j hj
  alone j l hj hl hjl := by
    rcases update_phase hj with ⟨rfl, -⟩ | ⟨-, hj'⟩ <;>
      rcases update_phase hl with ⟨rfl, -⟩ | ⟨-, hl'⟩
    · rfl
    · exact absurd hjl.symm (hfree l hl')
    · exact absurd hjl (hfree j hj')
    · exact hinv.alone j l hj' hl' hjl
  done j r hj := by
    rcases update_phase hj with ⟨-, h⟩ | ⟨-, hj⟩
    · nomatch h
    · exact hinv.done j r hj
  one k hk hn := by
    obtain ⟨i₀, hone, hcheck⟩ := hinv.one k hk hn
    exact ⟨i₀, hone.update (by simp [hstart]) (by simp), hcheck⟩

/-- `INSERT` adds the row. -/
theorem Inv.inserted (hinv : Inv args nodes s) (hgap : s.phase i = .gap)
    (hcheck : (args i).row.check) :
    Inv args nodes ⟨s.nodes ++ [(args i).row], Function.update s.phase i (.done 1)⟩ := by
  have hkey : (args i).key ∉ keys s.nodes := (hinv.gap i hgap).2
  constructor
  case nodup =>
    rw [keys_append_row]
    exact List.nodup_append_comm.mp (List.nodup_cons.mpr ⟨hkey, hinv.nodup⟩)
  case kept =>
    intro k hk
    rw [keys_append_row]
    exact List.mem_append_left _ (hinv.kept k hk)
  case gap =>
    intro j hj
    obtain ⟨hji, hj⟩ := gap_of_update hj
    refine ⟨(hinv.gap j hj).1, ?_⟩
    rw [keys_append_row, List.mem_append, List.mem_singleton, not_or]
    exact ⟨(hinv.gap j hj).2, fun h => hji (hinv.alone j i hj hgap h)⟩
  case alone =>
    intro j l hj hl
    exact hinv.alone j l (gap_of_update hj).2 (gap_of_update hl).2
  case done =>
    intro j r hj
    rw [keys_append_row]
    rcases update_phase hj with ⟨rfl, hr⟩ | ⟨-, hj⟩
    · exact .inr (.inl ⟨(Phase.done.inj hr).symm, by simp⟩)
    · rcases hinv.done j r hj with h | ⟨hr, h⟩ | ⟨hr, h⟩
      · exact .inl h
      · exact .inr (.inl ⟨hr, List.mem_append_left _ h⟩)
      · exact .inr (.inr ⟨hr, List.mem_append_left _ h⟩)
  case one =>
    intro k hk hn
    rw [keys_append_row, List.mem_append, List.mem_singleton] at hk
    rcases hk with hk | rfl
    · obtain ⟨i₀, hone, hi₀⟩ := hinv.one k hk hn
      refine ⟨i₀, hone.update (by simp [hgap]) fun r h => ?_, hi₀⟩
      exact absurd (h ▸ hk) hkey
    · refine ⟨i, ⟨rfl, Function.update_self .., fun j r hji hj hdone => ?_⟩, hcheck⟩
      have hdone : s.phase j = .done r := by simpa [hji] using hdone
      rcases hinv.done j r hdone with ⟨-, h⟩ | ⟨-, h⟩ | ⟨-, h⟩
      · exact absurd (row_eq_of_key hj ▸ hcheck) h
      · exact absurd (hj ▸ h) hkey
      · exact absurd (hj ▸ h) hkey

theorem Inv.step (hinv : Inv args nodes s) (hsafe : Undisturbed args s l)
    (h : step sq args s l = some t) : Inv args nodes t := by
  cases l with
  | select i =>
    obtain ⟨hp, hfree⟩ := hsafe
    obtain ⟨hstart, ⟨hkey, rfl⟩ | ⟨hkey, rfl⟩⟩ := step_select hp h
    · exact hinv.finished (by simp [hstart]) (.inr ⟨rfl, hkey⟩)
    · exact hinv.opened hstart hp hkey hfree
  | insert i =>
    have hgap : s.phase i = .gap := by
      by_contra hne
      simp [Db.step, hne] at h
    obtain ⟨-, ⟨hcheck, rfl⟩ | ⟨hcheck, rfl⟩⟩ := step_insert (hinv.gap i hgap).1 h
    · exact hinv.inserted hgap hcheck
    · exact hinv.finished (by simp [hgap]) (.inl ⟨rfl, hcheck⟩)

theorem unique_of_undisturbed (hnodes : (keys nodes).Nodup)
    (hrun : run (step sq args) (begin nodes) ls = some t)
    (hsafe : Each (step sq args) (Undisturbed args) (begin nodes) ls) : Unique args nodes t := by
  have hinv : Inv args nodes t :=
    invariant_each (fun _ _ _ hc hi hs => hi.step hc hs) hrun hsafe (Inv.begin hnodes)
  refine ⟨hinv.nodup, fun k hk hn => ?_⟩
  obtain ⟨i, hone, -⟩ := hinv.one k hk hn
  exact ⟨i, hone⟩

def twins : Bool → Args := fun _ => ⟨bytes "10.0.0.5", 9060⟩

theorem unique_twins_in_turn :
    ∃ t, run (step .strict twins) (begin [])
        [.select false, .insert false, .select true] = some t ∧ Unique twins [] t := by
  have hrun : (run (step .strict twins) (begin [])
      [.select false, .insert false, .select true]).isSome := by decide
  obtain ⟨t, ht⟩ := Option.isSome_iff_exists.mp hrun
  exact ⟨t, ht, unique_of_undisturbed (by decide) ht (by decide)⟩

theorem not_unique_twins_interleaved :
    ∃ t, run (step .strict twins) (begin [])
        [.select false, .select true, .insert false, .insert true] = some t ∧
      ¬ Unique twins [] t := by
  have hrun : (run (step .strict twins) (begin [])
      [.select false, .select true, .insert false, .insert true]).map (·.nodes) =
        some [(twins false).row, (twins true).row] := by decide
  obtain ⟨t, ht, hnodes⟩ := Option.map_eq_some_iff.mp hrun
  refine ⟨t, ht, fun h => ?_⟩
  have hnodup := h.nodup
  rw [hnodes] at hnodup
  revert hnodup
  decide

end GeoNS.Db
