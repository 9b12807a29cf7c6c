import Mathlib

/-!
# C strings over byte memory

Memory is a list of bytes. A C string is read from memory up to the first
NUL; a NUL the memory lacks is taken to stand at its end. The functions are
those of the C library, on the string values they are given.
-/

namespace CString

abbrev Bytes := List UInt8

/-- The bytes of an ASCII literal. -/
def bytes (s : String) : Bytes := s.toList.map fun c => UInt8.ofNat c.toNat

/-- The value of a C string: bytes with no NUL among them. -/
abbrev CStr := { s : Bytes // (0 : UInt8) ∉ s }

-- ---------------------------------------------------------------------------
-- Reading and copying
-- ---------------------------------------------------------------------------

/-- The string that starts at the head of `mem`. -/
def cstr (mem : Bytes) : Bytes := mem.takeWhile (· ≠ 0)

theorem cstr_append_zero (h : (0 : UInt8) ∉ s) : cstr (s ++ 0 :: t) = s := by
  induction s with
  | nil => rfl
  | cons c cs ih =>
    obtain ⟨hc, hcs⟩ := List.ne_and_not_mem_of_not_mem_cons h
    simpa [cstr, Ne.symm hc] using ih hcs

theorem cstr_eq_self (h : (0 : UInt8) ∉ s) : cstr s = s :=
  List.takeWhile_eq_self_iff.mpr fun c hc => by simpa using fun h0 : c = 0 => h (h0 ▸ hc)

theorem zero_notMem_cstr (mem : Bytes) : (0 : UInt8) ∉ cstr mem := fun h => by
  simpa using List.mem_takeWhile_imp h

/-- A string that ends inside `s` does not see what follows `s`. -/
theorem cstr_append_of_mem (h : (0 : UInt8) ∈ s) : cstr (s ++ t) = cstr s := by
  induction s with
  | nil => simp at h
  | cons c cs ih =>
    by_cases hc : c = 0
    · simp [cstr, hc]
    · have hcs : (0 : UInt8) ∈ cs := (List.mem_cons.mp h).resolve_left (Ne.symm hc)
      simpa [cstr, hc] using ih hcs

theorem cstr_append_of_notMem (h : (0 : UInt8) ∉ s) : cstr (s ++ t) = s ++ cstr t := by
  induction s with
  | nil => rfl
  | cons c cs ih =>
    obtain ⟨hc, hcs⟩ := List.ne_and_not_mem_of_not_mem_cons h
    simpa [cstr, Ne.symm hc] using ih hcs

theorem cstr_append_zero_cons (s t : Bytes) : cstr (s ++ 0 :: t) = cstr s := by
  by_cases hs : (0 : UInt8) ∈ s
  · exact cstr_append_of_mem hs
  · rw [cstr_append_zero hs, cstr_eq_self hs]

theorem length_cstr_le (mem : Bytes) : (cstr mem).length ≤ mem.length :=
  (List.takeWhile_prefix _).length_le

/-- What `strncpy` leaves in an array of `n` bytes: the string cut to `n`
bytes, or padded with NULs to `n`. -/
def strncpy (n : Nat) (src : Bytes) : Bytes := (src ++ List.replicate n 0).take n

@[simp] theorem length_strncpy (n : Nat) (src : Bytes) : (strncpy n src).length = n := by
  simp [strncpy]

theorem strncpy_of_le (h : src.length ≤ n) :
    strncpy n src = src ++ List.replicate (n - src.length) 0 := by
  rw [strncpy, List.take_append, List.take_of_length_le h, List.take_replicate]
  simp

theorem strncpy_nil (n : Nat) : strncpy n [] = List.replicate n 0 := by simp [strncpy]

theorem zero_mem_strncpy (h : src.length < n) : (0 : UInt8) ∈ strncpy n src := by
  rw [strncpy_of_le (Nat.le_of_lt h)]
  refine List.mem_append_right _ (List.mem_replicate.mpr ⟨?_, rfl⟩)
  omega

theorem cstr_strncpy_append (hsrc : (0 : UInt8) ∉ src) (h : src.length < n) (t : Bytes) :
    cstr (strncpy n src ++ t) = src := by
  have hpad : n - src.length = n - src.length - 1 + 1 := by omega
  rw [strncpy_of_le (Nat.le_of_lt h), hpad, List.replicate_succ, List.append_assoc, List.cons_append]
  exact cstr_append_zero hsrc

theorem cstr_strncpy_append_zero (hsrc : (0 : UInt8) ∉ src) (n : Nat) (t : Bytes) :
    cstr (strncpy n src ++ 0 :: t) = src.take n := by
  by_cases h : src.length < n
  · rw [cstr_strncpy_append hsrc h, List.take_of_length_le (Nat.le_of_lt h)]
  · have hfull : strncpy n src = src.take n := by
      rw [strncpy, List.take_append_of_le_length (Nat.le_of_not_lt h)]
    rw [hfull]
    exact cstr_append_zero fun hmem => hsrc (List.mem_of_mem_take hmem)

/-- Memory after `memcpy(mem + i, src, strlen)`. -/
def memcpy (mem : Bytes) (i : Nat) (src : Bytes) : Bytes :=
  mem.take i ++ src ++ mem.drop (i + src.length)

/-- What `snprintf` leaves in an array of `size` bytes: the text, cut so that
the terminator fits. -/
def snprintf (size : Nat) (text : Bytes) : Bytes := text.take (size - 1)

theorem snprintf_eq_self_iff (hsize : 0 < size) : snprintf size text = text ↔ text.length < size := by
  simp only [snprintf, List.take_eq_self_iff]
  omega

-- ---------------------------------------------------------------------------
-- Searching and splitting
-- ---------------------------------------------------------------------------

/-- The offset of the first occurrence of `pat`. -/
def strstr : Bytes → Bytes → Option Nat
  | [], pat => if pat.isPrefixOf [] then some 0 else none
  | c :: cs, pat => if pat.isPrefixOf (c :: cs) then some 0 else (strstr cs pat).map (· + 1)

/-- The strings successive calls of `strtok_r` return. -/
def strtok (delim : UInt8) (s : Bytes) : List Bytes := (s.splitOn delim).filter (· ≠ [])

theorem strtok_append_delim (delim : UInt8) (s t : Bytes) :
    strtok delim (s ++ delim :: t) = strtok delim s ++ strtok delim t := by
  simp [strtok, List.splitOn_append_cons_self]

theorem strtok_word (h : delim ∉ w) (hne : w ≠ []) : strtok delim w = [w] := by
  rw [strtok, List.splitOn_eq_singleton h]
  simp [hne]

-- ---------------------------------------------------------------------------
-- Characters and numbers
-- ---------------------------------------------------------------------------

def isdigit (c : UInt8) : Bool := 48 ≤ c && c ≤ 57

def isspace (c : UInt8) : Bool := c == 32 || (9 ≤ c && c ≤ 13)

def toupper (c : UInt8) : UInt8 := if 97 ≤ c && c ≤ 122 then c - 32 else c

/-- What `%d` prints for a number that is not negative. -/
def dec (n : Nat) : Bytes := (Nat.toDigits 10 n).map fun c => UInt8.ofNat c.toNat

def decVal (ds : Bytes) : Nat := ds.foldl (fun n d => 10 * n + (d.toNat - 48)) 0

theorem decVal_dec (n : Nat) : decVal (dec n) = n := by
  have hdigit : ∀ c ∈ Nat.toDigits 10 n, (UInt8.ofNat c.toNat).toNat = c.toNat := by
    intro c hc
    have hd := Nat.isDigit_of_mem_toDigits (by decide) (by decide) hc
    simp only [Char.isDigit, Bool.and_eq_true, decide_eq_true_eq] at hd
    have : c.toNat ≤ 57 := hd.2
    simp only [UInt8.toNat_ofNat']
    omega
  rw [decVal, dec, List.foldl_map]
  conv_rhs => rw [← Nat.ofDigitChars_ten_toDigits (n := n), Nat.ofDigitChars_eq_foldl]
  refine List.foldl_ext _ _ _ fun acc c hc => ?_
  rw [hdigit c hc]
  rfl

theorem dec_injective : Function.Injective dec :=
  Function.LeftInverse.injective decVal_dec

theorem isdigit_of_mem_dec (h : c ∈ dec n) : isdigit c := by
  obtain ⟨d, hd, rfl⟩ := List.mem_map.mp h
  have hd := Nat.isDigit_of_mem_toDigits (by decide) (by decide) hd
  simp only [Char.isDigit, Bool.and_eq_true, decide_eq_true_eq] at hd
  have h1 : 48 ≤ d.toNat := hd.1
  have h2 : d.toNat ≤ 57 := hd.2
  simp only [isdigit, Bool.and_eq_true, decide_eq_true_eq, UInt8.le_iff_toNat_le, UInt8.toNat_ofNat']
  change 48 ≤ _ ∧ _ ≤ 57
  omega

theorem dec_ne_nil (n : Nat) : dec n ≠ [] := by
  simp [dec, Nat.toDigits_ne_nil]

theorem length_dec_le (h : n < 10 ^ (k + 1)) : (dec n).length ≤ k + 1 := by
  simpa [dec] using (Nat.length_toDigits_le_iff (by decide) (Nat.succ_pos k)).mpr h

theorem exists_dec_eq_cons (h : 0 < n) : ∃ d ds, dec n = d :: ds ∧ d ≠ 48 := by
  induction n using Nat.strongRecOn with
  | ind n ih =>
    by_cases hn : n < 10
    · have hall : ∀ n < 10, 0 < n → UInt8.ofNat n.digitChar.toNat ≠ 48 := by decide
      exact ⟨_, [], by rw [dec, Nat.toDigits_of_lt_base hn]; rfl, hall n hn h⟩
    · obtain ⟨d, ds, hd, hne⟩ := ih (n / 10) (by omega) (by omega)
      refine ⟨d, ds ++ [UInt8.ofNat (n % 10).digitChar.toNat], ?_, hne⟩
      rw [dec, Nat.toDigits_of_base_le (by decide) (by omega), List.map_append,
        ← List.cons_append, ← hd]
      rfl

def digits (s : Bytes) : Bytes := s.takeWhile isdigit

theorem digits_append (h : ∀ c ∈ ds, isdigit c) (hc : isdigit c = false) (t : Bytes) :
    digits (ds ++ c :: t) = ds := by
  rw [digits, List.takeWhile_append_of_pos h]
  simp [hc]

/-- `strtol` in base ten on a 64-bit `long`: the value and whether any digit
was converted (`endptr` moved). -/
def strtol (s : Bytes) : Int × Bool :=
  let s := s.dropWhile isspace
  let negative := s.head? == some 45
  let body := if negative || s.head? == some 43 then s.tail else s
  let n : Int := decVal (digits body)
  if digits body = [] then (0, false)
  else if negative then (max (-n) (-2 ^ 63), true)
  else (min n (2 ^ 63 - 1), true)

theorem isspace_of_isdigit (h : isdigit c) : isspace c = false := by
  simp only [isdigit, Bool.and_eq_true, decide_eq_true_eq, UInt8.le_iff_toNat_le] at h
  have h32 : c ≠ 32 := by
    rintro rfl
    exact absurd h.1 (by decide)
  have h13 : ¬ c ≤ 13 := fun hle => by
    have hle := UInt8.le_iff_toNat_le.mp hle
    have hlow : 48 ≤ c.toNat := h.1
    have hhigh : c.toNat ≤ 13 := hle
    omega
  simp [isspace, h32, h13]

/-- What `strtol` returns: nothing converted, or a number that is clamped. -/
theorem strtol_cases (s : Bytes) : strtol s = (0, false) ∨ ∃ n : Nat,
    strtol s = (max (-(n : Int)) (-2 ^ 63), true) ∨ strtol s = (min (n : Int) (2 ^ 63 - 1), true) := by
  unfold strtol
  extract_lets s negative body n
  split
  · exact .inl rfl
  split
  · exact .inr ⟨_, .inl rfl⟩
  · exact .inr ⟨_, .inr rfl⟩

theorem strtol_bounds (s : Bytes) : -2 ^ 63 ≤ (strtol s).1 ∧ (strtol s).1 < 2 ^ 63 := by
  rcases strtol_cases s with h | ⟨n, h | h⟩ <;> rw [h] <;> constructor <;> simp only <;> omega

theorem strtol_eq_zero (h : (strtol s).2 = false) : (strtol s).1 = 0 := by
  rcases strtol_cases s with heq | ⟨n, heq | heq⟩ <;> rw [heq] at h ⊢ <;> simp at h

theorem strtol_digits (h : digits s ≠ []) :
    strtol s = (min (decVal (digits s) : Int) (2 ^ 63 - 1), true) := by
  cases s with
  | nil => exact absurd rfl h
  | cons c cs =>
    have hc : isdigit c := by
      by_contra hc
      simp [digits, hc] at h
    have hminus : c ≠ 45 := by
      rintro rfl
      contradiction
    have hplus : c ≠ 43 := by
      rintro rfl
      contradiction
    have hspace : (c :: cs).dropWhile isspace = c :: cs := by simp [isspace_of_isdigit hc]
    unfold strtol
    simp [hspace, hminus, hplus, h]

theorem digits_append_cons (hc : isdigit c = false) (s t : Bytes) :
    digits (s ++ c :: t) = digits s := by
  induction s with
  | nil => simp [digits, hc]
  | cons d s ih =>
    simp only [digits, List.cons_append, List.takeWhile_cons] at ih ⊢
    rw [ih]

example : strtol (bytes " -12x") = (-12, true) := by decide

end CString
