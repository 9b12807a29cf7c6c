import Mathlib

/-!
# Rows with a unique key

Rows of which each may have a key, and no two of them have the same one. A row
without a key is free to repeat.
-/

namespace KeyedList

variable {α κ : Type} {key : α → Option κ}

def Distinct (key : α → Option κ) (rows : List α) : Prop :=
  rows.Pairwise fun a b => key a = key b → key a = none

instance [DecidableEq κ] (rows : List α) : Decidable (Distinct key rows) :=
  inferInstanceAs (Decidable (List.Pairwise _ _))

def Fresh (key : α → Option κ) (rows : List α) (a : α) : Prop :=
  ∀ b ∈ rows, key b = key a → key b = none

instance [DecidableEq κ] (rows : List α) (a : α) : Decidable (Fresh key rows a) :=
  inferInstanceAs (Decidable (∀ b ∈ rows, _))

theorem Distinct.concat (hd : Distinct key rows) (hf : Fresh key rows a) :
    Distinct key (rows ++ [a]) := by
  refine List.pairwise_append.mpr ⟨hd, List.pairwise_singleton _ _, ?_⟩
  intro b hb c hc
  rw [List.mem_singleton.mp hc]
  exact hf b hb

theorem Distinct.filter_key [DecidableEq κ] (hd : Distinct key rows) (ha : a ∈ rows)
    (hk : key a = some k) : rows.filter (key · = some k) = [a] := by
  induction rows with
  | nil => cases ha
  | cons b rows ih =>
    obtain ⟨hb, hrows⟩ := List.pairwise_cons.mp hd
    rcases List.mem_cons.mp ha with rfl | ha
    · have hrest : rows.filter (key · = some k) = [] := by
        refine List.filter_eq_nil_iff.mpr fun c hc hck => ?_
        have hnone := hb c hc (hk.trans (of_decide_eq_true hck).symm)
        exact Option.some_ne_none k (hk.symm.trans hnone)
      rw [List.filter_cons_of_pos (by simpa using hk), hrest]
    · have hbk : key b ≠ some k := by
        intro hbk
        have hnone := hb a ha (hbk.trans hk.symm)
        exact Option.some_ne_none k (hbk.symm.trans hnone)
      rw [List.filter_cons_of_neg (by simpa using hbk), ih hrows ha]

theorem Distinct.count_eq_one [BEq α] [LawfulBEq α] [DecidableEq κ] (hd : Distinct key rows)
    (ha : a ∈ rows) (hk : key a = some k) : rows.count a = 1 := by
  calc rows.count a = (rows.filter (key · = some k)).count a :=
        (List.count_filter (by simpa using hk)).symm
    _ = [a].count a := by rw [hd.filter_key ha hk]
    _ = 1 := List.count_singleton_self

end KeyedList
