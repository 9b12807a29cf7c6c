import GeoNS.CString

/-!
# Strings in arrays

An array is the list of its bytes, and holds the string before its first NUL. The
functions of the C library are `none` where they read or write outside of it.
-/

namespace CString

def Holds (mem s : Bytes) : Prop := (0 : UInt8) ∉ s ∧ ∃ t, mem = s ++ 0 :: t

theorem Holds.cstr_eq {mem s : Bytes} (h : Holds mem s) : cstr mem = s := by
  obtain ⟨hs, t, rfl⟩ := h
  exact cstr_append_zero hs

theorem Holds.zero_mem {mem s : Bytes} (h : Holds mem s) : (0 : UInt8) ∈ mem := by
  obtain ⟨-, t, rfl⟩ := h
  exact List.mem_append_right s List.mem_cons_self

theorem Holds.length_lt {mem s : Bytes} (h : Holds mem s) : s.length < mem.length := by
  obtain ⟨-, t, rfl⟩ := h
  simp

theorem Holds.unique {mem s s' : Bytes} (h : Holds mem s) (h' : Holds mem s') : s = s' := by
  rw [← h.cstr_eq, h'.cstr_eq]

/-- The string ends where the array is zeroed. -/
theorem holds_append_zeros (hs : (0 : UInt8) ∉ s) (hn : 0 < n) : Holds (s ++ List.replicate n 0) s := by
  obtain ⟨n, rfl⟩ := Nat.exists_eq_succ_of_ne_zero (Nat.ne_of_gt hn)
  exact ⟨hs, List.replicate n 0, by rw [List.replicate_succ]⟩

theorem holds_strncpy (hs : (0 : UInt8) ∉ s) (hn : s.length < n) : Holds (strncpy n s) s := by
  rw [strncpy_of_le (Nat.le_of_lt hn)]
  exact holds_append_zeros hs (Nat.sub_pos_of_lt hn)

def strlen (mem : Bytes) : Option Nat := if (0 : UInt8) ∈ mem then some (cstr mem).length else none

theorem Holds.strlen_eq {mem s : Bytes} (h : Holds mem s) : strlen mem = some s.length := by
  rw [strlen, if_pos h.zero_mem, h.cstr_eq]

/-- `strncat(mem, src, n)`, with the terminator it writes. -/
def strncat (mem src : Bytes) (n : Nat) : Option Bytes :=
  (strlen mem).bind fun length =>
    if length + (src.take n).length < mem.length then some (memcpy mem length (src.take n ++ [0])) else none

theorem Holds.strncat_of_lt {mem s src : Bytes} (h : Holds mem s) (hsrc : (0 : UInt8) ∉ src)
    (hlt : s.length + (src.take n).length < mem.length) :
    ∃ mem', strncat mem src n = some mem' ∧ Holds mem' (s ++ src.take n) ∧ mem'.length = mem.length := by
  have hzero : (0 : UInt8) ∉ s ++ src.take n := by
    rw [List.mem_append]
    exact fun hmem => hmem.elim h.1 fun hmem => hsrc (List.mem_of_mem_take hmem)
  have htake : mem.take s.length = s := by
    obtain ⟨-, t, rfl⟩ := h
    exact List.take_left
  refine ⟨_, by rw [strncat, h.strlen_eq, Option.bind_some, if_pos hlt], ⟨hzero, ?_⟩, ?_⟩
  · exact ⟨mem.drop (s.length + (src.take n ++ [0]).length), by simp [memcpy, htake]⟩
  · simp only [memcpy, List.length_append, List.length_take, List.length_drop, List.length_singleton] at hlt ⊢
    omega

theorem Holds.strncat_eq_none {mem s src : Bytes} (h : Holds mem s)
    (hge : mem.length ≤ s.length + (src.take n).length) : strncat mem src n = none := by
  rw [strncat, h.strlen_eq, Option.bind_some, if_neg (Nat.not_lt_of_le hge)]

/-- A source that the count does not cut short is appended whole or does not fit. -/
theorem Holds.strncat_cases {mem s src : Bytes} (h : Holds mem s) (hsrc : (0 : UInt8) ∉ src)
    (hn : mem.length ≤ s.length + n ∨ src.length ≤ n) :
    (s.length + src.length < mem.length ∧
        ∃ mem', strncat mem src n = some mem' ∧ Holds mem' (s ++ src) ∧ mem'.length = mem.length) ∨
      (mem.length ≤ s.length + src.length ∧ strncat mem src n = none) := by
  rcases Nat.lt_or_ge (s.length + src.length) mem.length with hlt | hge
  · have hwhole : src.take n = src := List.take_of_length_le (by omega)
    have happended := h.strncat_of_lt (n := n) hsrc (by rwa [hwhole])
    rw [hwhole] at happended
    exact .inl ⟨hlt, happended⟩
  · refine .inr ⟨hge, h.strncat_eq_none ?_⟩
    rw [List.length_take]
    omega

end CString
