import Mathlib

/-!
# The spread of knowledge

Parties tell each other some of what they know. What a party is told is on its way
until it is learned or lost, and a party may forget. However the moves are
interleaved, nothing is known that was not there or was not introduced.
-/

namespace Gossip

variable {ι α : Type} [DecidableEq ι]

structure State (ι α : Type) where
  known : ι → Set α
  told : ι → Set α

inductive Move (P : α → Prop) (s : State ι α) : State ι α → Prop
  | introduce (i : ι) (x : α) (h : P x) :
    Move P s { s with known := Function.update s.known i (insert x (s.known i)) }
  | tell (i j : ι) (xs : Set α) (h : xs ⊆ s.known j) :
    Move P s { s with told := Function.update s.told i xs }
  | learn (i : ι) (x : α) (h : x ∈ s.told i) :
    Move P s { s with known := Function.update s.known i (insert x (s.known i)) }
  | lose (i : ι) (xs : Set α) (h : xs ⊆ s.told i) :
    Move P s { s with told := Function.update s.told i xs }
  | forget (i : ι) (xs : Set α) (h : xs ⊆ s.known i) :
    Move P s { s with known := Function.update s.known i xs }

abbrev Moves (P : α → Prop) : State ι α → State ι α → Prop := Relation.ReflTransGen (Move P)

def State.Within (Q : α → Prop) (s : State ι α) : Prop :=
  ∀ i x, x ∈ s.known i ∨ x ∈ s.told i → Q x

variable {P Q : α → Prop} {s t : State ι α}

theorem Move.within (hPQ : ∀ x, P x → Q x) (h : Move P s t) (hs : s.Within Q) : t.Within Q := by
  have hupdate (f : ι → Set α) (i j : ι) (xs : Set α) (x : α)
      (hx : x ∈ Function.update f i xs j) : x ∈ xs ∨ x ∈ f j := by
    by_cases hj : j = i
    · subst hj
      exact .inl (by simpa using hx)
    · exact .inr (by simpa [hj] using hx)
  intro j x hx
  cases h with
  | introduce i y hy =>
    rcases hx with hx | hx
    · rcases hupdate _ _ _ _ _ hx with (rfl | hx) | hx
      · exact hPQ _ hy
      · exact hs i x (.inl hx)
      · exact hs j x (.inl hx)
    · exact hs j x (.inr hx)
  | tell i k xs hxs =>
    rcases hx with hx | hx
    · exact hs j x (.inl hx)
    · rcases hupdate _ _ _ _ _ hx with hx | hx
      · exact hs k x (.inl (hxs hx))
      · exact hs j x (.inr hx)
  | learn i y hy =>
    rcases hx with hx | hx
    · rcases hupdate _ _ _ _ _ hx with (rfl | hx) | hx
      · exact hs i _ (.inr hy)
      · exact hs i x (.inl hx)
      · exact hs j x (.inl hx)
    · exact hs j x (.inr hx)
  | lose i xs hxs =>
    rcases hx with hx | hx
    · exact hs j x (.inl hx)
    · rcases hupdate _ _ _ _ _ hx with hx | hx
      · exact hs i x (.inr (hxs hx))
      · exact hs j x (.inr hx)
  | forget i xs hxs =>
    rcases hx with hx | hx
    · rcases hupdate _ _ _ _ _ hx with hx | hx
      · exact hs i x (.inl (hxs hx))
      · exact hs j x (.inl hx)
    · exact hs j x (.inr hx)

theorem Moves.within (hPQ : ∀ x, P x → Q x) (h : Moves P s t) (hs : s.Within Q) : t.Within Q := by
  induction h with
  | refl => exact hs
  | tail _ hmove ih => exact hmove.within hPQ ih

/-- What is known after any moves was known or told before, or was introduced. -/
theorem Moves.origin (h : Moves P s t) (i : ι) (x : α) (hx : x ∈ t.known i) :
    P x ∨ ∃ j, x ∈ s.known j ∨ x ∈ s.told j := by
  have hbefore : s.Within fun x => P x ∨ ∃ j, x ∈ s.known j ∨ x ∈ s.told j :=
    fun j x hx => .inr ⟨j, hx⟩
  exact h.within (fun _ => .inl) hbefore i x (.inl hx)

end Gossip
