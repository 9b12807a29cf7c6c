import Mathlib

/-!
# Maps as lists of pairs

A map is kept as a list of its pairs: a pair is replaced where it stands, new
ones come first, and one is taken out wherever it is. The lookups of such a list
are those of a function that is updated, and no key is in it twice.
-/

namespace AssocMap

variable {κ υ : Type} [BEq κ] {l l' : List (κ × υ)} {key k : κ} {value : υ}

def get (l : List (κ × υ)) (key : κ) : Option υ := (l.find? (·.1 == key)).map (·.2)

def keys (l : List (κ × υ)) : List κ := l.map (·.1)

def replace (key : κ) (value : υ) : List (κ × υ) → List (κ × υ)
  | [] => []
  | (k, v) :: l => if k == key then (k, value) :: l else (k, v) :: replace key value l

def put (l : List (κ × υ)) (key : κ) (value : υ) : List (κ × υ) :=
  if l.any (·.1 == key) then replace key value l else (key, value) :: l

def take (key : κ) : List (κ × υ) → Option (List (κ × υ))
  | [] => none
  | (k, v) :: l => if k == key then some l else (take key l).map ((k, v) :: ·)

-- ---------------------------------------------------------------------------
-- Lookups
-- ---------------------------------------------------------------------------

@[simp] theorem get_nil (key : κ) : get ([] : List (κ × υ)) key = none := rfl

theorem get_append (l r : List (κ × υ)) (key : κ) : get (l ++ r) key = (get l key).or (get r key) := by
  unfold get
  rw [List.find?_append]
  cases l.find? (·.1 == key) <;> rfl

theorem keys_replace (l : List (κ × υ)) (key : κ) (value : υ) : keys (replace key value l) = keys l := by
  induction l with
  | nil => rfl
  | cons pair l ih =>
    obtain ⟨k, v⟩ := pair
    rw [replace]
    split
    · rfl
    · exact congrArg (k :: ·) ih

variable [LawfulBEq κ]

theorem get_cons [DecidableEq κ] (k : κ) (v : υ) (l : List (κ × υ)) (key : κ) :
    get ((k, v) :: l) key = if k = key then some v else get l key := by
  by_cases h : k = key
  · simp [get, h]
  · have hne : (k == key) = false := by simpa using h
    simp [get, h, hne]

theorem get_isSome : (get l key).isSome ↔ key ∈ keys l := by
  simp [get, keys, List.find?_isSome]

theorem any_eq_isSome (l : List (κ × υ)) (key : κ) : l.any (·.1 == key) = (get l key).isSome := by
  rw [Bool.eq_iff_iff, get_isSome]
  simp [keys]

theorem get_replace [DecidableEq κ] (l : List (κ × υ)) (key : κ) (value : υ) (k : κ) :
    get (replace key value l) k =
      if k = key then (get l key).map fun _ => value else get l k := by
  induction l with
  | nil => simp [replace]
  | cons pair l ih =>
    obtain ⟨k', v⟩ := pair
    rw [replace]
    split
    · rename_i hk
      have hkey : k' = key := by simpa using hk
      subst hkey
      by_cases h : k = k'
      · simp [get_cons, h]
      · simp [get_cons, h, Ne.symm h]
    · rename_i hk
      have hkey : k' ≠ key := by simpa using hk
      rw [get_cons, ih, get_cons, get_cons, if_neg hkey]
      by_cases h : k = key
      · subst h
        simp [hkey]
      · simp [h]

/-- A put decides the lookup of its key, and no other. -/
theorem get_put [DecidableEq κ] (l : List (κ × υ)) (key : κ) (value : υ) (k : κ) :
    get (put l key value) k = if k = key then some value else get l k := by
  unfold put
  rw [any_eq_isSome]
  cases h : get l key with
  | none => simp [get_cons, eq_comm]
  | some v => simp [get_replace, h]

theorem nodup_put (h : (keys l).Nodup) (key : κ) (value : υ) : (keys (put l key value)).Nodup := by
  unfold put
  rw [any_eq_isSome]
  split
  · rwa [keys_replace]
  · rename_i hnone
    rw [get_isSome] at hnone
    exact List.nodup_cons.mpr ⟨hnone, h⟩

theorem mem_keys_put [DecidableEq κ] : k ∈ keys (put l key value) ↔ k = key ∨ k ∈ keys l := by
  rw [← get_isSome, get_put, ← get_isSome]
  by_cases h : k = key <;> simp [h]

theorem length_put [DecidableEq κ] (l : List (κ × υ)) (key : κ) (value : υ) :
    (put l key value).length = if key ∈ keys l then l.length else l.length + 1 := by
  have hlength : (replace key value l).length = l.length := by
    simpa [keys] using congrArg List.length (keys_replace l key value)
  unfold put
  simp only [any_eq_isSome, get_isSome]
  split
  · exact hlength
  · rfl

-- ---------------------------------------------------------------------------
-- Taking a pair out
-- ---------------------------------------------------------------------------

theorem take_eq_none (l : List (κ × υ)) (h : take key l = none) : key ∉ keys l := by
  induction l with
  | nil => exact List.not_mem_nil
  | cons pair l ih =>
    obtain ⟨k, v⟩ := pair
    rw [take] at h
    split at h
    · contradiction
    · rename_i hk
      have hkey : key ≠ k := fun h => hk (by simp [h])
      exact List.not_mem_cons_of_ne_of_not_mem hkey (ih (Option.map_eq_none_iff.mp h))

/-- What is taken out is one pair with the key, from wherever it was. -/
theorem take_eq_some (l : List (κ × υ)) (h : take key l = some l') :
    ∃ before v after, l = before ++ (key, v) :: after ∧ l' = before ++ after ∧ key ∉ keys before := by
  induction l generalizing l' with
  | nil => contradiction
  | cons pair l ih =>
    obtain ⟨k, v⟩ := pair
    rw [take] at h
    split at h
    · rename_i hk
      have hkey : k = key := by simpa using hk
      obtain rfl := Option.some.inj h
      exact ⟨[], v, l, by rw [hkey]; rfl, rfl, List.not_mem_nil⟩
    · rename_i hk
      have hkey : key ≠ k := fun h => hk (by simp [h])
      obtain ⟨rest, hrest, rfl⟩ := Option.map_eq_some_iff.mp h
      obtain ⟨before, v', after, rfl, rfl, hbefore⟩ := ih hrest
      exact ⟨(k, v) :: before, v', after, rfl, rfl, List.not_mem_cons_of_ne_of_not_mem hkey hbefore⟩

/-- Where no key is in the list twice, the key is gone with its pair. -/
theorem get_take [DecidableEq κ] (hnodup : (keys l).Nodup) (h : take key l = some l') (k : κ) :
    get l' k = if k = key then none else get l k := by
  obtain ⟨before, v, after, rfl, rfl, -⟩ := take_eq_some l h
  have hgone : key ∉ keys (before ++ after) := by
    rw [keys, List.map_append, List.map_cons, List.nodup_middle, List.nodup_cons] at hnodup
    simpa [keys] using hnodup.1
  split
  · rename_i hk
    rw [hk, ← Option.not_isSome_iff_eq_none, get_isSome]
    exact hgone
  · rename_i hk
    rw [get_append, get_append, get_cons, if_neg (Ne.symm hk)]

theorem nodup_take (hnodup : (keys l).Nodup) (h : take key l = some l') : (keys l').Nodup := by
  obtain ⟨before, v, after, rfl, rfl, -⟩ := take_eq_some l h
  rw [keys, List.map_append, List.map_cons, List.nodup_middle, List.nodup_cons] at hnodup
  simpa [keys] using hnodup.2

theorem length_take (h : take key l = some l') : l.length = l'.length + 1 := by
  obtain ⟨before, v, after, rfl, rfl, -⟩ := take_eq_some l h
  simp only [List.length_append, List.length_cons]
  omega

end AssocMap
