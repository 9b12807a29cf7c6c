import Mathlib

/-!
# Computations in lockstep

Two computations that may fail, over two representations of one state. They agree
where both fail in one way, or both come to results that a relation holds between.
-/

namespace Lockstep

variable {ε α β γ δ : Type}

/-- Both fail alike, in a way that `P` allows, or `R` relates their results. -/
inductive Alike (P : ε → Prop) (R : α → β → Prop) : Except ε α → Except ε β → Prop
  | error {e : ε} (h : P e) : Alike P R (.error e) (.error e)
  | ok {a : α} {b : β} (h : R a b) : Alike P R (.ok a) (.ok b)

variable {P : ε → Prop} {R R' : α → β → Prop} {S : γ → δ → Prop} {x : Except ε α} {y : Except ε β}

theorem Alike.cases (h : Alike P R x y) :
    (∃ a b, x = .ok a ∧ y = .ok b ∧ R a b) ∨ (∃ e, x = .error e ∧ y = .error e ∧ P e) := by
  cases h with
  | error h => exact .inr ⟨_, rfl, rfl, h⟩
  | ok h => exact .inl ⟨_, _, rfl, rfl, h⟩

/-- Where the one comes to a result the other does. -/
theorem Alike.ok_right (h : Alike P R x y) {b : β} (hy : y = .ok b) : ∃ a, x = .ok a ∧ R a b := by
  subst hy
  cases h with
  | ok h => exact ⟨_, rfl, h⟩

theorem Alike.bind {f : α → Except ε γ} {g : β → Except ε δ} (h : Alike P R x y)
    (hfg : ∀ a b, R a b → Alike P S (f a) (g b)) : Alike P S (x >>= f) (y >>= g) := by
  cases h with
  | error h => exact .error h
  | ok h => exact hfg _ _ h

/-- The one goes on alone, and cannot fail. -/
theorem Alike.bind_left {f : α → Except ε γ} {R' : γ → β → Prop} (h : Alike P R x y)
    (hf : ∀ a b, R a b → ∃ c, f a = .ok c ∧ R' c b) : Alike P R' (x >>= f) y := by
  cases h with
  | error h => exact .error h
  | @ok a b h =>
    obtain ⟨c, hc, hR⟩ := hf a b h
    change Alike P R' (f a) (.ok b)
    rw [hc]
    exact .ok hR

theorem Alike.mono (h : Alike P R x y) (hR : ∀ a b, R a b → R' a b) : Alike P R' x y := by
  cases h with
  | error h => exact .error h
  | ok h => exact .ok (hR _ _ h)

end Lockstep
