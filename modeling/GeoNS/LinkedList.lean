import Mathlib

/-!
# Singly linked lists

`next` is the pointer each node holds. A segment is the list of the nodes from
one pointer to another one, and a list is a segment that ends at NULL.
-/

namespace LinkedList

variable {α : Type}

/-- The nodes `l` lead from `p` to `q`. -/
def Seg (next : α → Option α) : Option α → List α → Option α → Prop
  | p, [], q => p = q
  | p, a :: l, q => p = some a ∧ Seg next (next a) l q

/-- The list that starts at `head`. -/
def IsList (next : α → Option α) (head : Option α) (l : List α) : Prop := Seg next head l none

theorem seg_null {next : α → Option α} {q : Option α} {l : List α} (h : Seg next none l q) :
    l = [] := by
  cases l with
  | nil => rfl
  | cons a l => nomatch h.1

theorem isList_head {next : α → Option α} {p : Option α} {l : List α} (h : IsList next p l) :
    p = l.head? := by
  cases l with
  | nil => exact h
  | cons a l => exact h.1

theorem seg_append {next : α → Option α} {p q : Option α} {l r : List α} :
    Seg next p (l ++ r) q ↔ ∃ m, Seg next p l m ∧ Seg next m r q := by
  induction l generalizing p with
  | nil => simp [Seg]
  | cons a l ih =>
    simp only [List.cons_append, Seg, ih]
    constructor
    · rintro ⟨hp, m, hl, hr⟩
      exact ⟨m, ⟨hp, hl⟩, hr⟩
    · rintro ⟨m, ⟨hp, hl⟩, hr⟩
      exact ⟨hp, m, hl, hr⟩

theorem seg_concat {next : α → Option α} {p q : Option α} {l : List α} {a : α} :
    Seg next p (l ++ [a]) q ↔ Seg next p l (some a) ∧ next a = q := by
  rw [seg_append]
  constructor
  · rintro ⟨m, hl, rfl, ha⟩
    exact ⟨hl, ha⟩
  · rintro ⟨hl, ha⟩
    exact ⟨some a, hl, rfl, ha⟩

theorem seg_congr {next next' : α → Option α} {p q : Option α} {l : List α}
    (h : ∀ a ∈ l, next a = next' a) : Seg next p l q ↔ Seg next' p l q := by
  induction l generalizing p with
  | nil => rfl
  | cons a l ih =>
    simp only [Seg, h a List.mem_cons_self, ih fun b hb => h b (List.mem_cons_of_mem a hb)]

section Update

variable [DecidableEq α] {next : α → Option α} {p q : Option α} {l r : List α} {a b c : α}

/-- A node that is not in the segment can be changed. -/
theorem seg_update (h : a ∉ l) (m : Option α) :
    Seg (Function.update next a m) p l q ↔ Seg next p l q :=
  seg_congr fun b hb => Function.update_of_ne (fun hba : b = a => h (hba ▸ hb)) m next

/-- A new node behind the last one. -/
theorem isList_append_last (h : IsList next p (l ++ [a])) (hnodup : a ∉ l) (hnew : c ∉ l ++ [a]) :
    IsList (Function.update (Function.update next c none) a (some c)) p (l ++ [a] ++ [c]) := by
  have hca : c ≠ a := fun hca => hnew (by simp [hca])
  have hcl : c ∉ l := fun hc => hnew (by simp [hc])
  obtain ⟨hl, -⟩ := seg_concat.mp h
  refine seg_concat.mpr ⟨seg_concat.mpr ⟨?_, Function.update_self a _ _⟩, ?_⟩
  · rwa [seg_update hnodup, seg_update hcl]
  · rw [Function.update_of_ne hca, Function.update_self]

/-- A node is unlinked from the one before it. -/
theorem isList_unlink (h : IsList next p (l ++ [b] ++ a :: r)) (hl : b ∉ l) (hr : b ∉ r) :
    IsList (Function.update next b (next a)) p (l ++ [b] ++ r) := by
  obtain ⟨m, hlb, hm, hr'⟩ := seg_append.mp h
  obtain ⟨hl', -⟩ := seg_concat.mp hlb
  refine seg_append.mpr ⟨next a, seg_concat.mpr ⟨?_, Function.update_self b _ _⟩, ?_⟩
  · rwa [seg_update hl]
  · rwa [seg_update hr]

end Update

end LinkedList
