import Mathlib

/-!
# Linear probing

An item of a table belongs to one of the cells of a ring, its home, and is in the
first cell from there on that was free. It is found as long as no cell on its way is
free. A cell that becomes free is filled from the cells behind it, one item after the
other, until no way leads over the free cell.
-/

namespace Probing

/-- The steps from `a` on to `b`, around a ring of `n` cells. -/
def steps (n a b : Nat) : Nat := if a ≤ b then b - a else b + n - a

-- ---------------------------------------------------------------------------
-- Steps around the ring
-- ---------------------------------------------------------------------------

section
variable {n a b c i : Nat}

@[simp] theorem steps_self (n a : Nat) : steps n a a = 0 := by simp [steps]

theorem steps_lt (ha : a < n) (hb : b < n) : steps n a b < n := by
  unfold steps
  split <;> omega

theorem steps_pos (ha : a < n) (hne : a ≠ b) : 0 < steps n a b := by
  unfold steps
  split <;> omega

theorem steps_inj (ha : a < n) (hb : b < n) (hc : c < n) (h : steps n a b = steps n a c) : b = c := by
  unfold steps at h
  split at h <;> split at h <;> omega

theorem add_mod_ring (ha : a < n) (hi : i < n) : (a + i) % n = if a + i < n then a + i else a + i - n := by
  split
  · exact Nat.mod_eq_of_lt ‹_›
  · rw [Nat.mod_eq_sub_mod (by omega), Nat.mod_eq_of_lt (by omega)]

theorem steps_walk (ha : a < n) (hi : i < n) : steps n a ((a + i) % n) = i := by
  rw [add_mod_ring ha hi]
  unfold steps
  split <;> split <;> omega

theorem walk_steps (ha : a < n) (hb : b < n) : (a + steps n a b) % n = b := by
  rw [add_mod_ring ha (steps_lt ha hb)]
  unfold steps
  split <;> split <;> omega

/-- A step on is one more step, unless it leads to the start. -/
theorem steps_next (ha : a < n) (hb : b < n) (hne : (b + 1) % n ≠ a) :
    steps n a ((b + 1) % n) = steps n a b + 1 := by
  rcases Nat.lt_or_ge (b + 1) n with h | h
  · rw [Nat.mod_eq_of_lt h] at hne ⊢
    unfold steps
    split <;> split <;> omega
  · have hn : n = b + 1 := by omega
    subst hn
    rw [Nat.mod_self] at hne ⊢
    unfold steps
    split <;> split <;> omega

/-- A step on is one step less to a cell that is not the one left. -/
theorem steps_of_next (hb : b < n) (hc : c < n) (hne : b ≠ c) :
    steps n b c = steps n ((b + 1) % n) c + 1 := by
  rcases Nat.lt_or_ge (b + 1) n with h | h
  · rw [Nat.mod_eq_of_lt h]
    unfold steps
    split <;> split <;> omega
  · have hn : n = b + 1 := by omega
    subst hn
    rw [Nat.mod_self]
    unfold steps
    split <;> split <;> omega

/-- Before another cell is reached, no step leads to the start. -/
theorem next_ne_of_lt (ha : a < n) (hb : b < n) (hc : c < n) (h : steps n a b < steps n a c) : (b + 1) % n ≠ a := by
  rcases Nat.lt_or_ge (b + 1) n with hlt | hge
  · rw [Nat.mod_eq_of_lt hlt]
    unfold steps at h
    split at h <;> split at h <;> omega
  · have hn : n = b + 1 := by omega
    subst hn
    rw [Nat.mod_self]
    unfold steps at h
    split at h <;> split at h <;> omega

/-- From a cell on the way to another, what is before the other is on that way, too. -/
theorem steps_lt_of_behind (ha : a < n) (hi : i < n) (hb : b < n) (hc : c < n)
    (hon : steps n a i < steps n a b) (h : steps n i c < steps n i b) : steps n a c < steps n a b := by
  unfold steps at *
  grind

end

-- ---------------------------------------------------------------------------
-- Tables
-- ---------------------------------------------------------------------------

/-- A table gives the home of the item in a cell, if there is one. No cell on the way
to an item is free. -/
structure Probed (n : Nat) (table : Nat → Option Nat) : Prop where
  home_lt : ∀ p h, table p = some h → h < n
  way : ∀ p < n, ∀ h, table p = some h → ∀ q < n, steps n h q < steps n h p → (table q).isSome

variable {n p q h i j : Nat} {table : Nat → Option Nat}

theorem probed_empty (n : Nat) : Probed n fun _ => none where
  home_lt _ _ h := nomatch h
  way _ _ _ h := nomatch h

/-- From any cell on, there is a first one that is free. -/
theorem exists_first_free (hfree : ∃ e < n, table e = none) (start : Nat) :
    ∃ p < n, table p = none ∧ ∀ q < n, steps n start q < steps n start p → (table q).isSome := by
  obtain ⟨e, he, hnone⟩ := hfree
  have hmem : e ∈ (Finset.range n).filter fun p => table p = none := by simp [he, hnone]
  obtain ⟨p, hp, hmin⟩ := Finset.exists_min_image _ (steps n start) ⟨e, hmem⟩
  simp only [Finset.mem_filter, Finset.mem_range] at hp hmin
  refine ⟨p, hp.1, hp.2, fun q hq hlt => ?_⟩
  by_contra hnone
  have hle := hmin q ⟨hq, by simpa using hnone⟩
  omega

/-- An item goes to the first cell that is free. -/
theorem Probed.insert (hprobed : Probed n table) (hh : h < n)
    (hway : ∀ q < n, steps n h q < steps n h p → (table q).isSome) :
    Probed n (Function.update table p (some h)) where
  home_lt q k hk := by
    by_cases hq : q = p
    · subst hq
      rw [Function.update_self] at hk
      exact Option.some.inj hk ▸ hh
    · rw [Function.update_of_ne hq] at hk
      exact hprobed.home_lt q k hk
  way q hq k hk r hr hlt := by
    by_cases hrp : r = p
    · simp [hrp]
    rw [Function.update_of_ne hrp]
    by_cases hqp : q = p
    · subst hqp
      rw [Function.update_self] at hk
      cases hk
      exact hway r hr hlt
    · rw [Function.update_of_ne hqp] at hk
      exact hprobed.way q hq k hk r hr hlt

-- ---------------------------------------------------------------------------
-- Filling a cell that becomes free
-- ---------------------------------------------------------------------------

/-- Cell `i` becomes free, and the cells behind it are looked at up to `j`: only the
ways to the cells behind that lead over `i`. -/
structure Hole (n : Nat) (table : Nat → Option Nat) (i j : Nat) : Prop where
  home_lt : ∀ p h, table p = some h → h < n
  way : ∀ p < n, p ≠ i → ∀ h, table p = some h → ∀ q < n, steps n h q < steps n h p →
    if q = i then steps n i j < steps n i p else (table q).isSome

theorem Probed.hole (hprobed : Probed n table) (hi : i < n) : Hole n table i i where
  home_lt := hprobed.home_lt
  way p hp hne h hh q hq hlt := by
    split
    · rw [steps_self]
      exact steps_pos hi hne.symm
    · exact hprobed.way p hp h hh q hq hlt

/-- What is in the cell that becomes free does not matter. -/
theorem Hole.congr {table' : Nat → Option Nat} (hhole : Hole n table i j)
    (hsame : ∀ p, p ≠ i → table' p = table p) (hi : ∀ h, table' i = some h → h < n) : Hole n table' i j where
  home_lt p h hh := by
    by_cases hp : p = i
    · exact hi h (hp ▸ hh)
    · exact hhole.home_lt p h (hsame p hp ▸ hh)
  way p hp hne h hh q hq hlt := by
    have hold := hhole.way p hp hne h (hsame p hne ▸ hh) q hq hlt
    by_cases hqi : q = i
    · rwa [if_pos hqi] at hold ⊢
    · rw [if_neg hqi] at hold ⊢
      rwa [hsame q hqi]

/-- The next cell is free, and no way leads over `i` any more. -/
theorem Hole.close (hhole : Hole n table i j) (hi : i < n) (hj : j < n) (hne : (j + 1) % n ≠ i)
    (hfree : table ((j + 1) % n) = none) : Probed n (Function.update table i none) where
  home_lt p h hh := by
    by_cases hp : p = i
    · simp [hp] at hh
    · exact hhole.home_lt p h (Function.update_of_ne hp none table ▸ hh)
  way p hp h hh q hq hlt := by
    by_cases hpi : p = i
    · simp [hpi] at hh
    rw [Function.update_of_ne hpi] at hh
    have hnext : (j + 1) % n < n := Nat.mod_lt _ (Nat.zero_lt_of_lt hj)
    have hold := hhole.way p hp hpi h hh q hq hlt
    split at hold
    · -- the way leads over `i`, and so over the cell that is free
      rename_i hqi
      subst hqi
      have hlater : steps n q ((j + 1) % n) < steps n q p := by
        have hle := steps_next hi hj hne
        have hother : (j + 1) % n ≠ p := by
          rintro rfl
          simp [hfree] at hh
        have hdiff : steps n q ((j + 1) % n) ≠ steps n q p := fun hsame => hother (steps_inj hi hnext hp hsame)
        omega
      have hfilled := hhole.way p hp hpi h hh _ hnext
        (steps_lt_of_behind (hhole.home_lt p h hh) hi hp hnext hlt hlater)
      rw [if_neg hne, hfree] at hfilled
      contradiction
    · rename_i hqi
      rwa [Function.update_of_ne hqi]

/-- The way to the next item does not lead over `i`. -/
theorem Hole.stay (hhole : Hole n table i j) (hi : i < n) (hj : j < n) (hne : (j + 1) % n ≠ i)
    (hhome : table ((j + 1) % n) = some h) (hover : ¬ steps n h i < steps n h ((j + 1) % n)) :
    Hole n table i ((j + 1) % n) where
  home_lt := hhole.home_lt
  way p hp hpi k hk q hq hlt := by
    have hold := hhole.way p hp hpi k hk q hq hlt
    split
    · rename_i hqi
      rw [if_pos hqi] at hold
      subst hqi
      have hnext : (j + 1) % n < n := Nat.mod_lt _ (Nat.zero_lt_of_lt hj)
      have hother : (j + 1) % n ≠ p := by
        rintro rfl
        rw [hhome] at hk
        cases hk
        exact hover hlt
      have hdiff : steps n q ((j + 1) % n) ≠ steps n q p := fun hsame => hother (steps_inj hi hnext hp hsame)
      have hle := steps_next hi hj hne
      omega
    · rename_i hqi
      rwa [if_neg hqi] at hold

/-- The next item goes to `i`, and leaves its cell. -/
theorem Hole.move (hhole : Hole n table i j) (hj : j < n) (hne : (j + 1) % n ≠ i)
    (hhome : table ((j + 1) % n) = some h) (hover : steps n h i < steps n h ((j + 1) % n)) :
    Hole n (Function.update table i (some h)) ((j + 1) % n) ((j + 1) % n) where
  home_lt p k hk := by
    by_cases hp : p = i
    · subst hp
      rw [Function.update_self] at hk
      exact Option.some.inj hk ▸ hhole.home_lt _ h hhome
    · exact hhole.home_lt p k (Function.update_of_ne hp (some h) table ▸ hk)
  way p hp hpj k hk q hq hlt := by
    have hnext : (j + 1) % n < n := Nat.mod_lt _ (Nat.zero_lt_of_lt hj)
    split
    · rw [steps_self]
      exact steps_pos hnext hpj.symm
    by_cases hqi : q = i
    · simp [hqi]
    rw [Function.update_of_ne hqi]
    by_cases hpi : p = i
    · subst hpi
      rw [Function.update_self] at hk
      cases hk
      have hold := hhole.way _ hnext hne h hhome q hq (hlt.trans hover)
      rwa [if_neg hqi] at hold
    · rw [Function.update_of_ne hpi] at hk
      have hold := hhole.way p hp hpi k hk q hq hlt
      rwa [if_neg hqi] at hold

end Probing
