import GeoNS.Parson.Laws

/-!
# The length of a text

What the writer makes of a value is bounded by its parts: a character below 128 is
escaped to at most six bytes, any other one is written as it is.
-/

namespace GeoNS.Parson

open CString

-- ---------------------------------------------------------------------------
-- Strings and numbers
-- ---------------------------------------------------------------------------

theorem length_escape_le (c : UInt8) : (escape c).length ≤ 6 := by
  rcases escape_cases c with ⟨h, -⟩ | ⟨e, h, -⟩ | ⟨h, -⟩ <;> simp [h]

theorem escape_of_high (h : 128 ≤ c) : escape c = [c] := by
  have hne (d : UInt8) (hd : d < 128) : ¬ c = d := fun hcd =>
    absurd (hcd ▸ h) (UInt8.not_le.mpr hd)
  have hlow : ¬ c < 32 := UInt8.not_lt.mpr (UInt8.le_trans (by decide) h)
  simp [escape, hne 34, hne 92, hne 8, hne 12, hne 10, hne 13, hne 9, hne 47, hlow]

def lows (s : Bytes) : Nat := s.countP (· < 128)

theorem lows_cons (c : UInt8) (cs : Bytes) : lows (c :: cs) = lows cs + if c < 128 then 1 else 0 := by
  simp [lows, List.countP_cons]

theorem lows_le_length (s : Bytes) : lows s ≤ s.length := List.countP_le_length

theorem length_flatMap_escape_le (s : Bytes) : (s.flatMap escape).length ≤ 5 * lows s + s.length := by
  induction s with
  | nil => exact Nat.zero_le _
  | cons c cs ih =>
    have hescape := length_escape_le c
    rw [List.flatMap_cons, List.length_append, lows_cons, List.length_cons]
    by_cases hc : c < 128
    · rw [if_pos hc]
      omega
    · rw [if_neg hc, escape_of_high (UInt8.not_lt.mp hc), List.length_singleton]
      omega

theorem length_serializeString_le (s : Bytes) : (serializeString s).length ≤ 5 * lows s + s.length + 2 := by
  have hescaped := length_flatMap_escape_le s
  simp only [serializeString, List.length_cons, List.length_append, List.length_nil]
  omega

-- ---------------------------------------------------------------------------
-- Arrays and objects
-- ---------------------------------------------------------------------------

theorem length_serializeItems_le (h : ∀ v ∈ items, (serialize v).length ≤ k) :
    (serializeItems items).length ≤ items.length * (k + 1) := by
  induction items with
  | nil => exact Nat.zero_le _
  | cons v items ih =>
    rw [List.forall_mem_cons] at h
    have hrest := ih h.2
    by_cases hnil : items = []
    · rw [hnil, serializeItems]
      exact Nat.le_trans h.1 (by simp)
    · rw [serializeItems_cons v hnil, List.length_cons, Nat.succ_mul, List.length_append, List.length_cons]
      omega

theorem length_serializeMembers_append_le (members : Object) (name : Bytes) (v : Value) :
    (serializeMembers (members ++ [(name, v)])).length ≤
      (serializeMembers members).length + (serializeString name).length + (serialize v).length + 2 := by
  induction members with
  | nil =>
    simp only [List.nil_append, serializeMembers, List.length_append, List.length_cons, List.length_nil]
    omega
  | cons m members ih =>
    rw [List.cons_append, serializeMembers_cons m (by simp)]
    by_cases hnil : members = []
    · rw [hnil] at ih ⊢
      simp only [List.nil_append, serializeMembers, List.length_append, List.length_cons, List.length_nil] at ih ⊢
      omega
    · rw [serializeMembers_cons m hnil]
      simp only [List.length_append, List.length_cons] at ih ⊢
      omega

def Lacks (object : Object) (name : Bytes) : Prop := ∀ m ∈ object, m.1 ≠ name

theorem lacks_nil (name : Bytes) : Lacks [] name := List.forall_mem_nil _

theorem Lacks.setValue (h : Lacks object other) (hne : name ≠ other) (v : Option Value) :
    Lacks (objectSetValue object name v) other := by
  cases v with
  | none => exact h
  | some v =>
    dsimp only [objectSetValue]
    split
    · rintro m hm
      obtain ⟨m', hm', rfl⟩ := List.mem_map.mp hm
      split
      · exact hne
      · exact h m' hm'
    · rintro m hm
      rw [List.mem_append, List.mem_singleton] at hm
      rcases hm with hm | rfl
      · exact h m hm
      · exact hne

theorem Lacks.setString (h : Lacks object other) (hne : name ≠ other) (s : Bytes) :
    Lacks (objectSetString object name s) other := h.setValue hne _

theorem Lacks.setNumber (h : Lacks object other) (hne : name ≠ other) (n : Nat) :
    Lacks (objectSetNumber object name n) other := h.setValue hne _

theorem length_setValue_le (h : Lacks object name) (hv : ∀ v, value = some v → (serialize v).length ≤ k) :
    (serializeMembers (objectSetValue object name value)).length ≤
      (serializeMembers object).length + (serializeString name).length + k + 2 := by
  cases value with
  | none =>
    show (serializeMembers object).length ≤ _
    omega
  | some v =>
    have hnew : object.any (·.1 == name) = false := by
      rw [List.any_eq_false]
      exact fun m hm => by simpa using h m hm
    have happend := length_serializeMembers_append_le object name v
    have hle := hv v rfl
    simp only [objectSetValue, hnew, Bool.false_eq_true, if_false]
    omega

theorem length_setString_le (h : Lacks object name) (s : Bytes) :
    (serializeMembers (objectSetString object name s)).length ≤
      (serializeMembers object).length + (serializeString name).length + (5 * lows s + s.length + 2) + 2 := by
  refine length_setValue_le h fun v hv => ?_
  unfold valueInitString at hv
  split at hv
  · cases hv
    exact length_serializeString_le s
  · contradiction

theorem length_setNumber_le (h : Lacks object name) (hn : n < 10 ^ (k + 1)) :
    (serializeMembers (objectSetNumber object name n)).length ≤
      (serializeMembers object).length + (serializeString name).length + (k + 1) + 2 := by
  refine length_setValue_le h fun v hv => ?_
  cases hv
  rw [serialize, serializeNumber_ofNat]
  exact length_dec_le hn

end GeoNS.Parson
