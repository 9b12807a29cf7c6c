import GeoNS.Runs

/-!
# What a trace holds

A trace acquires and releases resources one at a time. What it holds is a run of
these acts; a release of what is not held stops the run.
-/

namespace Holdings

open Runs

variable {τ : Type} [DecidableEq τ]

inductive Act (τ : Type)
  | acquire (r : τ)
  | release (r : τ)
  deriving DecidableEq, Repr

def step (rs : List τ) : Act τ → Option (List τ)
  | .acquire r => some (r :: rs)
  | .release r => if r ∈ rs then some (rs.erase r) else none

/-- What is held after the acts, `none` where one of them released what was not
held. -/
def held (as : List (Act τ)) : Option (List τ) := run step [] as

theorem count_step {rs rs' : List τ} {a : Act τ} (h : step rs a = some rs') (r : τ) :
    rs'.count r + [a].count (.release r) = rs.count r + [a].count (.acquire r) := by
  cases a with
  | acquire r' =>
    obtain rfl := Option.some.inj h
    by_cases hr : r' = r <;> simp [hr]
  | release r' =>
    simp only [step] at h
    split at h
    case isFalse => contradiction
    case isTrue hmem =>
      obtain rfl := Option.some.inj h
      by_cases hr : r' = r
      · subst hr
        have hpos := List.count_pos_iff.mpr hmem
        simp only [List.count_erase_self, List.count_singleton_self, List.count_singleton, beq_iff_eq,
          reduceCtorEq, if_false]
        omega
      · simp [List.count_erase_of_ne (Ne.symm hr), hr]

/-- What is held was acquired and not released. -/
theorem count_run {rs rs' : List τ} {as : List (Act τ)} (h : run step rs as = some rs') (r : τ) :
    rs'.count r + as.count (.release r) = rs.count r + as.count (.acquire r) := by
  induction as generalizing rs with
  | nil =>
    obtain rfl := Option.some.inj h
    rfl
  | cons a as ih =>
    obtain ⟨next, hstep, hrest⟩ := run_cons.mp h
    have hfirst := count_step hstep r
    have hlater := ih hrest
    rw [← List.singleton_append, List.count_append, List.count_append]
    omega

theorem count_held {rs : List τ} {as : List (Act τ)} (h : held as = some rs) (r : τ) :
    rs.count r + as.count (.release r) = as.count (.acquire r) := by
  simpa using count_run h r

-- ---------------------------------------------------------------------------
-- Parts of a trace
-- ---------------------------------------------------------------------------

theorem step_perm {rs rs' ss : List τ} {a : Act τ} (hperm : rs.Perm ss) (h : step rs a = some rs') :
    ∃ ss', step ss a = some ss' ∧ rs'.Perm ss' := by
  cases a with
  | acquire r =>
    obtain rfl := Option.some.inj h
    exact ⟨r :: ss, rfl, hperm.cons r⟩
  | release r =>
    simp only [step] at h ⊢
    split at h
    case isFalse => contradiction
    case isTrue hmem =>
      obtain rfl := Option.some.inj h
      exact ⟨ss.erase r, if_pos (hperm.mem_iff.mp hmem), hperm.erase r⟩

/-- The order in which resources are held does not matter. -/
theorem run_perm {rs rs' ss : List τ} {as : List (Act τ)} (hperm : rs.Perm ss) (h : run step rs as = some rs') :
    ∃ ss', run step ss as = some ss' ∧ rs'.Perm ss' := by
  induction as generalizing rs ss with
  | nil =>
    obtain rfl := Option.some.inj h
    exact ⟨ss, rfl, hperm⟩
  | cons a as ih =>
    obtain ⟨next, hstep, hrest⟩ := run_cons.mp h
    obtain ⟨next', hstep', hnext⟩ := step_perm hperm hstep
    obtain ⟨ss', hrest', hss⟩ := ih hnext hrest
    exact ⟨ss', run_cons.mpr ⟨next', hstep', hrest'⟩, hss⟩

/-- The acts take the resources `rs` to `rs'`, whatever else is held. -/
def Takes (rs : List τ) (as : List (Act τ)) (rs' : List τ) : Prop :=
  ∀ s rest, s.Perm (rs ++ rest) → ∃ s', run step s as = some s' ∧ s'.Perm (rs' ++ rest)

theorem Takes.of_run {rs rs' : List τ} {as : List (Act τ)}
    (h : ∀ rest, run step (rs ++ rest) as = some (rs' ++ rest)) : Takes rs as rs' := by
  rintro s rest hperm
  obtain ⟨s', hrun, hs'⟩ := run_perm hperm.symm (h rest)
  exact ⟨s', hrun, hs'.symm⟩

theorem Takes.nil (rs : List τ) : Takes rs [] rs := fun s _ hperm => ⟨s, rfl, hperm⟩

theorem Takes.acquire (r : τ) : Takes [] [.acquire r] [r] := .of_run fun _ => rfl

theorem Takes.release (r : τ) : Takes [r] [.release r] [] := by
  refine .of_run fun rest => ?_
  rw [run, step, if_pos (List.mem_append_left _ (List.mem_singleton_self r))]
  simp

theorem Takes.append {rs rs' rs'' : List τ} {as bs : List (Act τ)} (h : Takes rs as rs') (h' : Takes rs' bs rs'') :
    Takes rs (as ++ bs) rs'' := by
  rintro s rest hperm
  obtain ⟨s', hrun, hs'⟩ := h s rest hperm
  obtain ⟨s'', hrun', hs''⟩ := h' s' rest hs'
  exact ⟨s'', by rw [run_append, hrun, Option.bind_some, hrun'], hs''⟩

/-- What is held besides stays held. -/
theorem Takes.frame {rs rs' : List τ} {as : List (Act τ)} (h : Takes rs as rs') (more : List τ) :
    Takes (rs ++ more) as (rs' ++ more) := by
  rintro s rest hperm
  rw [List.append_assoc] at hperm ⊢
  exact h s (more ++ rest) hperm

theorem Takes.perm {rs rs' ss ss' : List τ} {as : List (Act τ)} (h : Takes rs as rs') (hs : ss.Perm rs)
    (hs' : rs'.Perm ss') : Takes ss as ss' := by
  rintro s rest hperm
  obtain ⟨s', hrun, hout⟩ := h s rest (hperm.trans (hs.append_right rest))
  exact ⟨s', hrun, hout.trans (hs'.append_right rest)⟩

theorem Takes.acquires (rs : List τ) : Takes [] (rs.map .acquire) rs := by
  induction rs with
  | nil => exact .nil []
  | cons r rs ih =>
    have hfirst : Takes [r] (rs.map .acquire) (rs ++ [r]) := ih.frame [r]
    exact ((Takes.acquire r).append hfirst).perm (.refl _) List.perm_append_comm

theorem Takes.releases (rs : List τ) : Takes rs (rs.map .release) [] := by
  induction rs with
  | nil => exact .nil []
  | cons r rs ih =>
    have hfirst : Takes (r :: rs) [.release r] rs := (Takes.release r).frame rs
    exact hfirst.append ih

/-- What is acquired for the time of the acts. -/
theorem Takes.during {rs rs' : List τ} {as : List (Act τ)} (h : Takes rs as rs') (cs : List τ) :
    Takes rs (cs.map .acquire ++ as ++ cs.map .release) rs' := by
  have hacquire : Takes rs (cs.map .acquire) (cs ++ rs) := (Takes.acquires cs).frame rs
  have hacts : Takes (cs ++ rs) as (cs ++ rs') := (h.frame cs).perm List.perm_append_comm List.perm_append_comm
  have hrelease : Takes (cs ++ rs') (cs.map .release) rs' := (Takes.releases cs).frame rs'
  exact (hacquire.append hacts).append hrelease

/-- What is taken to nothing leaves nothing. -/
theorem Takes.run_eq {rs : List τ} {as : List (Act τ)} (h : Takes rs as []) : run step rs as = some [] := by
  obtain ⟨s', hrun, hs'⟩ := h rs [] (by rw [List.append_nil])
  rw [hrun, hs'.eq_nil]

theorem run_release_of_notMem {rs : List τ} {r : τ} (h : r ∉ rs) (as : List (Act τ)) :
    run step rs (.release r :: as) = none := by
  rw [run, step, if_neg h, Option.bind_none]

def Act.map {υ : Type} (f : τ → υ) : Act τ → Act υ
  | .acquire r => .acquire (f r)
  | .release r => .release (f r)

/-- Resources under other names, beside others. -/
theorem run_map {υ : Type} [DecidableEq υ] {f : τ → υ} (hf : Function.Injective f) {rs rs' : List τ}
    {as : List (Act τ)} (h : run step rs as = some rs') (rest : List υ) :
    run step (rs.map f ++ rest) (as.map (Act.map f)) = some (rs'.map f ++ rest) := by
  induction as generalizing rs with
  | nil =>
    obtain rfl := Option.some.inj h
    rfl
  | cons a as ih =>
    obtain ⟨next, hstep, hrest⟩ := run_cons.mp h
    refine run_cons.mpr ⟨next.map f ++ rest, ?_, ih hrest⟩
    cases a with
    | acquire r =>
      obtain rfl := Option.some.inj hstep
      rfl
    | release r =>
      simp only [step] at hstep
      split at hstep
      case isFalse => cases hstep
      case isTrue hmem =>
        obtain rfl := Option.some.inj hstep
        have hmem' : f r ∈ rs.map f := List.mem_map_of_mem hmem
        simp only [Act.map, step]
        rw [if_pos (List.mem_append_left _ hmem'), List.erase_append_left _ hmem', List.map_erase hf]

theorem Takes.map {υ : Type} [DecidableEq υ] {f : τ → υ} (hf : Function.Injective f) {rs rs' : List τ}
    {as : List (Act τ)} (h : Takes rs as rs') : Takes (rs.map f) (as.map (Act.map f)) (rs'.map f) := by
  obtain ⟨s', hrun, hperm⟩ := h rs [] (by rw [List.append_nil])
  rw [List.append_nil] at hperm
  exact (Takes.of_run (run_map hf hrun)).perm (.refl _) (hperm.map f)

end Holdings
