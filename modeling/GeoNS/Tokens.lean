import GeoNS.CString

/-!
# Tokens

The tokens of a string are its longest parts without the delimiter. A string
either has no delimiter, or it is a word, a delimiter and a rest; the laws below
follow that split.
-/

namespace CString

variable {d : UInt8} {s t w : Bytes}

/-- The split at the first delimiter. -/
theorem exists_word (d : UInt8) (s : Bytes) : d ∉ s ∨ ∃ w t, d ∉ w ∧ s = w ++ d :: t := by
  by_cases h : d ∈ s
  · obtain ⟨w, t, rfl, hw⟩ := List.eq_append_cons_of_mem h
    exact .inr ⟨w, t, hw, rfl⟩
  · exact .inl h

@[simp] theorem strtok_nil (d : UInt8) : strtok d [] = [] := by simp [strtok]

theorem strtok_of_notMem (h : d ∉ w) : strtok d w = if w = [] then [] else [w] := by
  split
  · rename_i hnil
    rw [hnil, strtok_nil]
  · rename_i hne
    exact strtok_word h hne

theorem strtok_append_cons (h : d ∉ w) (t : Bytes) :
    strtok d (w ++ d :: t) = if w = [] then strtok d t else w :: strtok d t := by
  rw [strtok_append_delim, strtok_of_notMem h]
  split <;> rfl

/-- The first token goes on behind a word that begins the string. -/
theorem exists_strtok_append (h : d ∉ w) (hne : w ≠ []) (t : Bytes) :
    ∃ u rest, strtok d (w ++ t) = (w ++ u) :: rest := by
  rcases exists_word d t with ht | ⟨u, t, hu, rfl⟩
  · exact ⟨t, [], strtok_word (by simp [h, ht]) (List.append_ne_nil_of_left_ne_nil hne t)⟩
  · refine ⟨u, strtok d t, ?_⟩
    rw [← List.append_assoc, strtok_append_cons (by simp [h, hu]), if_neg]
    exact List.append_ne_nil_of_left_ne_nil hne u

/-- Induction on a string, word by word. -/
theorem wordInduction {P : Bytes → Prop} (d : UInt8) (hword : ∀ w, d ∉ w → P w)
    (hcons : ∀ w t, d ∉ w → P t → P (w ++ d :: t)) (s : Bytes) : P s := by
  induction hn : s.length using Nat.strongRecOn generalizing s with
  | ind n ih =>
    rcases exists_word d s with hs | ⟨w, t, hw, rfl⟩
    · exact hword s hs
    · refine hcons w t hw (ih t.length ?_ t rfl)
      simp only [List.length_append, List.length_cons] at hn
      omega

theorem token_of_mem (h : w ∈ strtok d s) : d ∉ w ∧ w ≠ [] := by
  induction s using wordInduction d with
  | hword s hs =>
    rw [strtok_of_notMem hs] at h
    split at h
    · cases h
    · rename_i hne
      rw [List.mem_singleton.mp h]
      exact ⟨hs, hne⟩
  | hcons s t hs ih =>
    rw [strtok_append_cons hs] at h
    split at h
    · exact ih h
    · rename_i hne
      rcases List.mem_cons.mp h with rfl | h
      · exact ⟨hs, hne⟩
      · exact ih h

theorem mem_of_token (h : w ∈ strtok d s) (hc : c ∈ w) : c ∈ s := by
  induction s using wordInduction d with
  | hword s hs =>
    rw [strtok_of_notMem hs] at h
    split at h
    · cases h
    · rwa [List.mem_singleton.mp h] at hc
  | hcons s t hs ih =>
    rw [strtok_append_cons hs] at h
    split at h
    · exact List.mem_append_right s (List.mem_cons_of_mem d (ih h))
    · rcases List.mem_cons.mp h with rfl | h
      · exact List.mem_append_left _ hc
      · exact List.mem_append_right s (List.mem_cons_of_mem d (ih h))

/-- Every byte but the delimiters is in a token. -/
theorem exists_token_of_mem (h : c ∈ s) (hne : c ≠ d) : ∃ w ∈ strtok d s, c ∈ w := by
  induction s using wordInduction d with
  | hword s hs =>
    refine ⟨s, ?_, h⟩
    rw [strtok_word hs (List.ne_nil_of_mem h)]
    exact List.mem_singleton_self s
  | hcons s t hs ih =>
    rw [strtok_append_delim]
    rcases List.mem_append.mp h with h | h
    · refine ⟨s, List.mem_append_left _ ?_, h⟩
      rw [strtok_word hs (List.ne_nil_of_mem h)]
      exact List.mem_singleton_self s
    · obtain ⟨w, hw, hmem⟩ := ih ((List.mem_cons.mp h).resolve_left hne)
      exact ⟨w, List.mem_append_right _ hw, hmem⟩

/-- A part of the string without the delimiter is a part of a token. -/
theorem exists_token_of_infix {p : Bytes} (hne : p ≠ []) (hd : d ∉ p) (h : p <:+: s) :
    ∃ w ∈ strtok d s, p <:+: w := by
  have hempty : ∀ t : Bytes, ¬ p <+: d :: t := by
    intro t hprefix
    rcases List.prefix_cons_iff.mp hprefix with hnil | ⟨q, rfl, -⟩
    · exact hne hnil
    · exact hd List.mem_cons_self
  induction s using wordInduction d with
  | hword s hs =>
    have hs' : s ≠ [] := by
      rintro rfl
      exact hne (List.infix_nil.mp h)
    exact ⟨s, by rw [strtok_word hs hs']; exact List.mem_singleton_self s, h⟩
  | hcons s t hs ih =>
    rw [strtok_append_delim]
    rcases List.infix_append_iff_ne_nil.mp h with h | h | ⟨p₁, p₂, -, hp₂, rfl, -, hprefix⟩
    · have hs' : s ≠ [] := by
        rintro rfl
        exact hne (List.infix_nil.mp h)
      exact ⟨s, List.mem_append_left _ (by rw [strtok_word hs hs']; exact List.mem_singleton_self s), h⟩
    · obtain ⟨w, hw, hinfix⟩ := ih ((List.infix_cons_iff.mp h).resolve_left (hempty t))
      exact ⟨w, List.mem_append_right _ hw, hinfix⟩
    · rcases List.prefix_cons_iff.mp hprefix with hnil | ⟨q, rfl, -⟩
      · exact absurd hnil hp₂
      · exact absurd (List.mem_append_right _ List.mem_cons_self) hd

theorem infix_of_token (h : w ∈ strtok d s) : w <:+: s := by
  induction s using wordInduction d with
  | hword s hs =>
    rw [strtok_of_notMem hs] at h
    split at h
    · cases h
    · rw [List.mem_singleton.mp h]
  | hcons s t hs ih =>
    rw [strtok_append_delim, List.mem_append, strtok_of_notMem hs] at h
    rcases h with h | h
    · split at h
      · cases h
      · rw [List.mem_singleton.mp h]
        exact List.infix_append_left
    · exact List.infix_append_of_infix_right (List.infix_cons (ih h))

/-- The tokens and the delimiters between them fit into the string. -/
theorem sum_strtok_le (d : UInt8) (s : Bytes) :
    ((strtok d s).map (·.length + 1)).sum ≤ s.length + 1 := by
  induction s using wordInduction d with
  | hword s hs =>
    rw [strtok_of_notMem hs]
    split <;> simp
  | hcons s t hs ih =>
    rw [strtok_append_cons hs, List.length_append, List.length_cons]
    split
    · omega
    · rw [List.map_cons, List.sum_cons]
      omega

theorem length_token_le (h : w ∈ strtok d s) : w.length ≤ s.length := by
  have hle := List.le_sum_of_mem (List.mem_map_of_mem (f := fun w => w.length + 1) h)
  have hsum := sum_strtok_le d s
  omega

/-- Every token takes a byte and, but for the last one, a delimiter. -/
theorem length_strtok_le (d : UInt8) (s : Bytes) : 2 * (strtok d s).length ≤ s.length + 1 := by
  have hsum := sum_strtok_le d s
  have hlower : (strtok d s).length * 2 ≤ ((strtok d s).map (·.length + 1)).sum := by
    have hall : ∀ n ∈ (strtok d s).map (·.length + 1), 2 ≤ n := by
      intro n hn
      obtain ⟨w, hw, rfl⟩ := List.mem_map.mp hn
      have hpos := List.length_pos_of_ne_nil (token_of_mem hw).2
      omega
    simpa using List.card_nsmul_le_sum _ 2 hall
  omega

/-- The search for one byte ends behind the first word. -/
theorem strstr_word (h : d ∉ w) (t : Bytes) : strstr (w ++ d :: t) [d] = some w.length := by
  induction w with
  | nil => simp [strstr]
  | cons c w ih =>
    obtain ⟨hc, hw⟩ := List.ne_and_not_mem_of_not_mem_cons h
    rw [List.cons_append, strstr, ih hw]
    simp [hc]

-- ---------------------------------------------------------------------------
-- Where a search ends
-- ---------------------------------------------------------------------------

theorem exists_of_strstr {pat : Bytes} (h : strstr s pat = some i) :
    ∃ w t, s = w ++ (pat ++ t) ∧ w.length = i := by
  induction s generalizing i with
  | nil =>
    cases pat with
    | nil =>
      obtain rfl := Option.some.inj h
      exact ⟨[], [], rfl, rfl⟩
    | cons p pat => contradiction
  | cons c s ih =>
    rw [strstr] at h
    split at h
    case isTrue hprefix =>
      obtain rfl := Option.some.inj h
      obtain ⟨t, ht⟩ := List.isPrefixOf_iff_prefix.mp hprefix
      exact ⟨[], t, ht.symm, rfl⟩
    case isFalse =>
      obtain ⟨j, hj, rfl⟩ := Option.map_eq_some_iff.mp h
      obtain ⟨w, t, rfl, rfl⟩ := ih hj
      exact ⟨c :: w, t, rfl, rfl⟩

theorem strstr_isSome_iff {pat : Bytes} : (strstr s pat).isSome ↔ pat <:+: s := by
  constructor
  · intro h
    obtain ⟨i, hi⟩ := Option.isSome_iff_exists.mp h
    obtain ⟨w, t, rfl, -⟩ := exists_of_strstr hi
    exact ⟨w, t, List.append_assoc w pat t⟩
  · rintro ⟨w, t, rfl⟩
    induction w with
    | nil =>
      cases pat with
      | nil => cases t <;> rfl
      | cons p pat => simp [strstr]
    | cons c w ih =>
      rw [List.cons_append, List.cons_append, strstr]
      split
      · rfl
      · rwa [Option.isSome_map]

/-- What follows the first occurrence does not move it. -/
theorem strstr_append {pat : Bytes} (h : strstr s pat = some i) (t : Bytes) :
    strstr (s ++ t) pat = some i := by
  induction s generalizing i with
  | nil =>
    cases pat with
    | nil => cases t <;> exact h
    | cons p pat => contradiction
  | cons c s ih =>
    rw [strstr] at h
    rw [List.cons_append, strstr]
    split at h
    case isTrue hprefix =>
      rw [if_pos]
      · exact h
      · have hle := List.isPrefixOf_iff_prefix.mp hprefix
        exact List.isPrefixOf_iff_prefix.mpr (hle.trans (List.prefix_append _ t))
    case isFalse hprefix =>
      obtain ⟨j, hj, rfl⟩ := Option.map_eq_some_iff.mp h
      rw [if_neg, ih hj]
      · rfl
      · -- the occurrence in `s` leaves no room for one that reaches into `t`
        obtain ⟨w, u, hs, -⟩ := exists_of_strstr hj
        intro hlonger
        refine hprefix (List.isPrefixOf_iff_prefix.mpr ?_)
        refine List.prefix_of_prefix_length_le (List.isPrefixOf_iff_prefix.mp hlonger)
          (List.prefix_append (c :: s) t) ?_
        rw [hs]
        simp only [List.length_cons, List.length_append]
        omega

/-- A text that ends with the first occurrence. -/
theorem strstr_of_append {w pat t : Bytes} (h : strstr (w ++ (pat ++ t)) pat = some w.length) :
    strstr (w ++ pat) pat = some w.length := by
  have hfound : (strstr (w ++ pat) pat).isSome := strstr_isSome_iff.mpr (List.suffix_append w pat).isInfix
  obtain ⟨i, hi⟩ := Option.isSome_iff_exists.mp hfound
  have hlonger := strstr_append hi t
  rw [List.append_assoc, h] at hlonger
  rw [hi, hlonger]

end CString
