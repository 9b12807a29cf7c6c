import Mathlib

/-!
# Runs of labelled steps

A system is given by its step function: what a label does to a state, or
`none` where the label is not enabled there. A run is a list of labels. The
rules below take what one step preserves to what a whole run preserves.
-/

namespace Runs

variable {σ α : Type} {step : σ → α → Option σ}

/-- The state after a run, `none` where one of its labels was not enabled. -/
def run (step : σ → α → Option σ) (s : σ) : List α → Option σ
  | [] => some s
  | a :: as => (step s a).bind fun s' => run step s' as

@[simp] theorem run_nil (s : σ) : run step s [] = some s := rfl

theorem run_cons : run step s (a :: as) = some t ↔ ∃ s', step s a = some s' ∧ run step s' as = some t := by
  simp [run, Option.bind_eq_some_iff]

theorem run_append (s : σ) (as bs : List α) :
    run step s (as ++ bs) = (run step s as).bind fun s' => run step s' bs := by
  induction as generalizing s with
  | nil => rfl
  | cons a as ih =>
    cases h : step s a with
    | none => simp [run, h]
    | some s' => simp [run, h, ih]

/-- `C` holds at every step of the run: of the state before the step and its
label. -/
def Each (step : σ → α → Option σ) (C : σ → α → Prop) : σ → List α → Prop
  | _, [] => True
  | s, a :: as => C s a ∧ ∀ s', step s a = some s' → Each step C s' as

instance decidableEach {C : σ → α → Prop} [∀ s a, Decidable (C s a)] :
    (s : σ) → (as : List α) → Decidable (Each step C s as)
  | _, [] => isTrue trivial
  | s, a :: as =>
    match h : step s a with
    | none => decidable_of_iff (C s a) (by simp [Each, h])
    | some s' =>
      have := decidableEach (C := C) s' as
      decidable_of_iff (C s a ∧ Each step C s' as) (by simp [Each, h])

/-- Every label of a run is one of the run's. -/
theorem each_mem (s : σ) (as : List α) : Each step (fun _ a => a ∈ as) s as := by
  have hsub (s : σ) (bs : List α) (h : bs ⊆ as) : Each step (fun _ a => a ∈ as) s bs := by
    induction bs generalizing s with
    | nil => trivial
    | cons b bs ih =>
      obtain ⟨hb, hbs⟩ := List.cons_subset.mp h
      exact ⟨hb, fun s' _ => ih s' hbs⟩
  exact hsub s as (List.Subset.refl as)

/-- What every step that meets `C` preserves, a run whose steps all meet `C`
preserves. -/
theorem invariant_each {C : σ → α → Prop} {I : σ → Prop}
    (hstep : ∀ s a s', C s a → I s → step s a = some s' → I s')
    (hrun : run step s as = some t) (hc : Each step C s as) (hi : I s) : I t := by
  induction as generalizing s with
  | nil => exact Option.some.inj hrun ▸ hi
  | cons a as ih =>
    obtain ⟨s', hs, hrest⟩ := run_cons.mp hrun
    exact ih hrest (hc.2 s' hs) (hstep s a s' hc.1 hi hs)

/-- What every step preserves, every run preserves. -/
theorem invariant {I : σ → Prop} (hstep : ∀ s a s', I s → step s a = some s' → I s')
    (hrun : run step s as = some t) (hi : I s) : I t := by
  induction as generalizing s with
  | nil => exact Option.some.inj hrun ▸ hi
  | cons a as ih =>
    obtain ⟨s', hs, hrest⟩ := run_cons.mp hrun
    exact ih hrest (hstep s a s' hi hs)

/-- Where each step keeps the verdict `G` exactly when it meets `C`, the run
ends with `G` exactly when all its steps met `C`. -/
theorem verdict_iff {C : σ → α → Prop} {I G : σ → Prop}
    (hstep : ∀ s a s', I s → step s a = some s' → I s' ∧ (G s' ↔ G s ∧ C s a))
    (hrun : run step s as = some t) (hi : I s) : G t ↔ G s ∧ Each step C s as := by
  induction as generalizing s with
  | nil => simp_all [Each]
  | cons a as ih =>
    obtain ⟨s', hs, hrest⟩ := run_cons.mp hrun
    obtain ⟨hi', hg⟩ := hstep s a s' hi hs
    rw [ih hrest hi', hg, Each, and_assoc]
    refine and_congr_right fun _ => and_congr_right fun _ => ⟨fun h t ht => ?_, fun h => h s' hs⟩
    rwa [← Option.some.inj (hs.symm.trans ht)]

end Runs
