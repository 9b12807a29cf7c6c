import Mathlib

/-!
# Tables of numbered slots

A slot is free or holds a value. A value is put into the free slot with the
lowest number, and past the end of the table every slot is free.
-/

namespace SlotTable

variable {δ : Type}

abbrev Table (δ : Type) := List (Option δ)

def slot (t : Table δ) (n : Nat) : Option δ := t[n]?.join

def lowestFree (t : Table δ) : Nat := t.findIdx (·.isNone)

def insert (t : Table δ) (d : δ) : Table δ :=
  if lowestFree t < t.length then t.set (lowestFree t) (some d) else t ++ [some d]

def free (t : Table δ) (n : Nat) : Table δ := t.set n none

theorem lowestFree_le_length (t : Table δ) : lowestFree t ≤ t.length := List.findIdx_le_length

theorem slot_lowestFree (t : Table δ) : slot t (lowestFree t) = none := by
  unfold slot
  by_cases h : lowestFree t < t.length
  · have hfree : (t[lowestFree t]).isNone := List.findIdx_getElem
    rw [List.getElem?_eq_getElem h, Option.isNone_iff_eq_none.mp hfree]
    rfl
  · rw [List.getElem?_eq_none (Nat.le_of_not_lt h)]
    rfl

theorem mem_of_slot {t : Table δ} (h : slot t n = some d) : some d ∈ t := by
  rw [slot, Option.join_eq_some_iff] at h
  exact List.mem_of_getElem? h

theorem slot_insert (t : Table δ) (d : δ) (n : Nat) :
    slot (insert t d) n = if n = lowestFree t then some d else slot t n := by
  unfold insert slot
  split
  case isTrue h =>
    rw [List.getElem?_set]
    by_cases hn : n = lowestFree t
    · simp [hn, h]
    · simp [hn, Ne.symm hn]
  case isFalse h =>
    have hlength : lowestFree t = t.length := Nat.le_antisymm (lowestFree_le_length t) (Nat.le_of_not_lt h)
    rw [hlength]
    rcases Nat.lt_trichotomy n t.length with hlt | heq | hgt
    · rw [List.getElem?_append_left hlt, if_neg hlt.ne]
    · simp [heq]
    · rw [if_neg hgt.ne', List.getElem?_eq_none (by simp; omega), List.getElem?_eq_none hgt.le]

theorem slot_free (t : Table δ) (n m : Nat) :
    slot (free t n) m = if m = n then none else slot t m := by
  unfold free slot
  rw [List.getElem?_set]
  by_cases hm : n = m
  · subst hm
    by_cases hlt : n < t.length <;> simp [hlt]
  · simp [hm, Ne.symm hm]

end SlotTable
