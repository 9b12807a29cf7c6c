import GeoNS.Parson.Parser

/-!
# Laws of the parser

The fuel of the parser never decides its answer, and what the writer wrote
is read back, whatever follows it.
-/

namespace GeoNS.Parson

open CString

-- ---------------------------------------------------------------------------
-- Lengths
-- ---------------------------------------------------------------------------

theorem length_skipWhitespaces_le (s : Bytes) : (skipWhitespaces s).length ≤ s.length :=
  (List.dropWhile_suffix _).length_le

theorem length_of_skipWhitespaces (h : skipWhitespaces s = c :: rest) : rest.length < s.length := by
  have hle := length_skipWhitespaces_le s
  rw [h, List.length_cons] at hle
  omega

theorem length_of_skipQuotes (h : skipQuotes s = some (raw, left)) : left.length < s.length := by
  fun_induction skipQuotes s generalizing raw left with
  | case1 => nomatch h
  | case2 rest =>
    cases h
    simp
  | case3 => nomatch h
  | case4 _ d rest ih =>
    obtain ⟨⟨raw', left'⟩, hrest, heq⟩ := Option.map_eq_some_iff.mp h
    cases heq
    have := ih hrest
    simp only [List.length_cons]
    omega
  | case5 c rest _ _ ih =>
    obtain ⟨⟨raw', left'⟩, hrest, heq⟩ := Option.map_eq_some_iff.mp h
    cases heq
    have := ih hrest
    simp only [List.length_cons]
    omega

theorem length_of_getQuotedString (h : getQuotedString s = some (chars, left)) :
    left.length < s.length := by
  unfold getQuotedString at h
  split at h
  · nomatch h
  · split at h
    case isFalse => nomatch h
    split at h
    · nomatch h
    · rename_i raw left' hquotes
      obtain ⟨chars', -, heq⟩ := Option.map_eq_some_iff.mp h
      cases heq
      have := length_of_skipQuotes hquotes
      simp only [List.length_cons]
      omega

theorem length_of_parseName (h : parseName s = some (name, left)) : left.length < s.length := by
  unfold parseName at h
  split at h
  · nomatch h
  · rename_i name' left' hquoted
    have hlen := length_of_getQuotedString hquoted
    split at h
    · nomatch h
    · split at h
      · nomatch h
      · rename_i c rest hskip
        split at h
        · cases h
          have := length_of_skipWhitespaces hskip
          omega
        · nomatch h

theorem length_of_parseNext (h : parseNext close s = some (.more left)) :
    left.length < s.length := by
  unfold parseNext at h
  split at h
  · nomatch h
  · rename_i c rest hskip
    have hlen := length_of_skipWhitespaces hskip
    split at h
    · split at h
      · nomatch h
      · rename_i d rest' hskip'
        split at h
        · nomatch h
        · cases h
          have := length_skipWhitespaces_le rest
          rw [hskip'] at this
          omega
    · split at h <;> nomatch h

theorem length_of_stop (h : parseNext close s = some (.stop left)) : left.length < s.length := by
  unfold parseNext at h
  split at h
  · nomatch h
  · rename_i c rest hskip
    have hlen := length_of_skipWhitespaces hskip
    split at h
    · split at h
      · nomatch h
      · rename_i d rest' hskip'
        split at h
        · cases h
          have := length_of_skipWhitespaces hskip'
          omega
        · nomatch h
    · split at h
      · cases h
        exact hlen
      · nomatch h

theorem length_of_parseLiteral (h : parseLiteral token v s = some (v', left)) :
    left.length ≤ s.length := by
  unfold parseLiteral at h
  split at h
  · cases h
    simp
  · contradiction

theorem length_of_parseBooleanValue (h : parseBooleanValue s = some (v, left)) :
    left.length ≤ s.length := by
  unfold parseBooleanValue at h
  split at h
  · rename_i r hr
    exact length_of_parseLiteral (hr.trans h)
  · exact length_of_parseLiteral h

theorem length_of_parseStringValue (h : parseStringValue s = some (v, left)) :
    left.length ≤ s.length := by
  obtain ⟨⟨chars, left'⟩, hquoted, heq⟩ := Option.map_eq_some_iff.mp h
  cases heq
  exact (length_of_getQuotedString hquoted).le

theorem length_of_parseNumberValue (h : parseNumberValue s = some (v, left)) :
    left.length ≤ s.length := by
  unfold parseNumberValue at h
  split at h
  · contradiction
  · simp only at h
    split at h
    · cases h
      simp
    · contradiction

-- ---------------------------------------------------------------------------
-- Values by their first byte
-- ---------------------------------------------------------------------------

def parseOpened (close : UInt8) (empty : Value) (parseMore : Bytes → Option (Value × Bytes)) (s : Bytes) :
    Option (Value × Bytes) :=
  match skipWhitespaces s with
  | [] => none
  | d :: rest => if d = close then some (empty, rest) else parseMore (d :: rest)

def parseScalar (c : UInt8) (rest : Bytes) : Option (Value × Bytes) :=
  if c = 34 then parseStringValue (c :: rest)
  else if c = 102 || c = 116 then parseBooleanValue (c :: rest)
  else if isNumberStart c then parseNumberValue (c :: rest)
  else if c = 110 then parseLiteral (bytes "null") .null (c :: rest)
  else none

theorem parseValue_object (hn : n ≤ maxNesting) (hskip : skipWhitespaces s = 123 :: rest) :
    parseValue (fuel + 1) n s =
      parseOpened 125 (.object []) (parseMembers fuel (n + 1) []) rest := by
  rw [parseValue, if_neg (Nat.not_lt.mpr hn), hskip]
  rfl

theorem parseValue_array (hn : n ≤ maxNesting) (hskip : skipWhitespaces s = 91 :: rest) :
    parseValue (fuel + 1) n s =
      parseOpened 93 (.array []) (parseItems fuel (n + 1) []) rest := by
  rw [parseValue, if_neg (Nat.not_lt.mpr hn), hskip]
  rfl

theorem parseValue_scalar (hn : n ≤ maxNesting) (hskip : skipWhitespaces s = c :: rest)
    (hobject : c ≠ 123) (harray : c ≠ 91) : parseValue (fuel + 1) n s = parseScalar c rest := by
  rw [parseValue, if_neg (Nat.not_lt.mpr hn), hskip]
  dsimp only
  rw [if_neg hobject, if_neg harray]
  rfl

inductive Reads (fuel n : Nat) (rest : Bytes) (r : Value × Bytes) : UInt8 → Prop
  | object (h : parseOpened 125 (.object []) (parseMembers fuel (n + 1) []) rest = some r) :
    Reads fuel n rest r 123
  | array (h : parseOpened 93 (.array []) (parseItems fuel (n + 1) []) rest = some r) :
    Reads fuel n rest r 91
  | scalar (hobject : c ≠ 123) (harray : c ≠ 91) (h : parseScalar c rest = some r) :
    Reads fuel n rest r c

theorem parseValue_cases (h : parseValue (fuel + 1) n s = some r) :
    n ≤ maxNesting ∧ ∃ c rest, skipWhitespaces s = c :: rest ∧ Reads fuel n rest r c := by
  by_cases hn : n ≤ maxNesting
  case neg =>
    rw [parseValue, if_pos (Nat.lt_of_not_le hn)] at h
    contradiction
  refine ⟨hn, ?_⟩
  cases hskip : skipWhitespaces s with
  | nil => simp [parseValue, hskip] at h
  | cons c rest =>
    refine ⟨c, rest, rfl, ?_⟩
    by_cases hobject : c = 123
    · subst hobject
      exact .object (parseValue_object hn hskip ▸ h)
    by_cases harray : c = 91
    · subst harray
      exact .array (parseValue_array hn hskip ▸ h)
    · exact .scalar hobject harray (parseValue_scalar hn hskip hobject harray ▸ h)

theorem length_of_parseOpened {parseMore : Bytes → Option (Value × Bytes)}
    (hmore : ∀ s v left, parseMore s = some (v, left) → left.length ≤ s.length)
    (h : parseOpened close empty parseMore s = some (v, left)) : left.length ≤ s.length := by
  unfold parseOpened at h
  split at h
  · contradiction
  rename_i d rest hskip
  have hlen := length_of_skipWhitespaces hskip
  split at h
  · cases h
    exact hlen.le
  · exact (hmore _ _ _ h).trans hlen

theorem length_of_parseScalar (h : parseScalar c rest = some (v, left)) :
    left.length ≤ (c :: rest).length := by
  unfold parseScalar at h
  split at h
  · exact length_of_parseStringValue h
  split at h
  · exact length_of_parseBooleanValue h
  split at h
  · exact length_of_parseNumberValue h
  split at h
  · exact length_of_parseLiteral h
  · contradiction

section Step

variable {fuel : Nat}

theorem length_of_parseValue
    (ihMembers : ∀ n acc s v left, parseMembers fuel n acc s = some (v, left) → left.length ≤ s.length)
    (ihItems : ∀ n acc s v left, parseItems fuel n acc s = some (v, left) → left.length ≤ s.length)
    (h : parseValue (fuel + 1) n s = some (v, left)) : left.length ≤ s.length := by
  obtain ⟨-, c, rest, hskip, hreads⟩ := parseValue_cases h
  have hlen := length_of_skipWhitespaces hskip
  cases hreads with
  | object h => exact (length_of_parseOpened (ihMembers _ _) h).trans hlen.le
  | array h => exact (length_of_parseOpened (ihItems _ _) h).trans hlen.le
  | scalar _ _ h => exact (length_of_parseScalar h).trans hlen

theorem length_of_parseMembers
    (ihValue : ∀ n s v left, parseValue fuel n s = some (v, left) → left.length ≤ s.length)
    (ihMembers : ∀ n acc s v left, parseMembers fuel n acc s = some (v, left) → left.length ≤ s.length)
    (h : parseMembers (fuel + 1) n acc s = some (v, left)) : left.length ≤ s.length := by
  unfold parseMembers at h
  split at h
  · contradiction
  rename_i name left₁ hname
  have h₁ := length_of_parseName hname
  split at h
  · contradiction
  rename_i v₁ left₂ hvalue
  have h₂ := ihValue _ _ _ _ hvalue
  split at h
  · contradiction
  split at h
  · contradiction
  · rename_i left₃ hnext
    cases h
    have := length_of_stop hnext
    omega
  · rename_i left₃ hnext
    have := length_of_parseNext hnext
    have := ihMembers _ _ _ _ _ h
    omega

theorem length_of_parseItems
    (ihValue : ∀ n s v left, parseValue fuel n s = some (v, left) → left.length ≤ s.length)
    (ihItems : ∀ n acc s v left, parseItems fuel n acc s = some (v, left) → left.length ≤ s.length)
    (h : parseItems (fuel + 1) n acc s = some (v, left)) : left.length ≤ s.length := by
  unfold parseItems at h
  split at h
  · contradiction
  rename_i v₁ left₂ hvalue
  have h₂ := ihValue _ _ _ _ hvalue
  split at h
  · contradiction
  · rename_i left₃ hnext
    cases h
    have := length_of_stop hnext
    omega
  · rename_i left₃ hnext
    have := length_of_parseNext hnext
    have := ihItems _ _ _ _ _ h
    omega

end Step

theorem length_of_parse (fuel : Nat) :
    (∀ n s v left, parseValue fuel n s = some (v, left) → left.length ≤ s.length) ∧
      (∀ n acc s v left, parseMembers fuel n acc s = some (v, left) → left.length ≤ s.length) ∧
      (∀ n acc s v left, parseItems fuel n acc s = some (v, left) → left.length ≤ s.length) := by
  induction fuel with
  | zero => simp [parseValue, parseMembers, parseItems]
  | succ fuel ih =>
    obtain ⟨ihValue, ihMembers, ihItems⟩ := ih
    refine ⟨fun n s v left h => ?_, fun n acc s v left h => ?_, fun n acc s v left h => ?_⟩
    · exact length_of_parseValue ihMembers ihItems h
    · exact length_of_parseMembers ihValue ihMembers h
    · exact length_of_parseItems ihValue ihItems h

-- ---------------------------------------------------------------------------
-- Fuel
-- ---------------------------------------------------------------------------

/-- More fuel than the text can use. An item is parsed with the whole of its
array's text, which takes one call more. -/
theorem parse_fuel (fuel : Nat) :
    (∀ fuel' n s, 2 * s.length < fuel → 2 * s.length < fuel' →
      parseValue fuel n s = parseValue fuel' n s) ∧
    (∀ fuel' n acc s, 2 * s.length < fuel → 2 * s.length < fuel' →
      parseMembers fuel n acc s = parseMembers fuel' n acc s) ∧
    (∀ fuel' n acc s, 2 * s.length + 1 < fuel → 2 * s.length + 1 < fuel' →
      parseItems fuel n acc s = parseItems fuel' n acc s) := by
  induction fuel with
  | zero => simp
  | succ fuel ih =>
    obtain ⟨ihValue, ihMembers, ihItems⟩ := ih
    refine ⟨fun fuel' n s h h' => ?_, fun fuel' n acc s h h' => ?_, fun fuel' n acc s h h' => ?_⟩ <;>
      obtain ⟨fuel', rfl⟩ := Nat.exists_eq_succ_of_ne_zero (Nat.ne_zero_of_lt h')
    · simp only [parseValue]
      cases hskip : skipWhitespaces s with
      | nil => rfl
      | cons c rest =>
        have hlen := length_of_skipWhitespaces hskip
        cases hskip' : skipWhitespaces rest with
        | nil => simp only [hskip']
        | cons d rest' =>
          have hlen' := length_of_skipWhitespaces hskip'
          have hd : (d :: rest').length ≤ rest.length := hlen'
          simp only [hskip']
          rw [ihMembers fuel' (n + 1) [] (d :: rest') (by omega) (by omega),
            ihItems fuel' (n + 1) [] (d :: rest') (by omega) (by omega)]
    · simp only [parseMembers]
      split
      · rfl
      · rename_i name left₁ hname
        have h₁ := length_of_parseName hname
        rw [ihValue fuel' n left₁ (by omega) (by omega)]
        split
        · rfl
        · rename_i v₁ left₂ hvalue
          have h₂ := (length_of_parse fuel').1 _ _ _ _ hvalue
          split
          · rfl
          split
          · rfl
          · rfl
          · rename_i left₃ hnext
            have h₃ := length_of_parseNext hnext
            exact ihMembers fuel' n _ left₃ (by omega) (by omega)
    · simp only [parseItems]
      rw [ihValue fuel' n s (by omega) (by omega)]
      split
      · rfl
      · rename_i v₁ left₂ hvalue
        have h₂ := (length_of_parse fuel').1 _ _ _ _ hvalue
        split
        · rfl
        · rfl
        · rename_i left₃ hnext
          have h₃ := length_of_parseNext hnext
          exact ihItems fuel' n _ left₃ (by omega) (by omega)

theorem parseValue_fuel (n : Nat) (h : 2 * s.length < fuel) :
    parseValue fuel n s = parseValue (2 * s.length + 1) n s :=
  (parse_fuel fuel).1 _ n s h (Nat.lt_succ_self _)

-- ---------------------------------------------------------------------------
-- Strings
-- ---------------------------------------------------------------------------

theorem hexCharToInt_hexDigit : ∀ n < 16, hexCharToInt (hexDigit n) = some n := by decide

theorem escape_letter : ∀ c ∈ ([34, 92, 8, 12, 10, 13, 9, 47] : List UInt8),
    escape c = [92, (escape c).getD 1 0] ∧ (escape c).getD 1 0 ≠ 117 ∧
      unescape ((escape c).getD 1 0) = some c := by
  decide +kernel

theorem escape_cases (c : UInt8) :
    (escape c = [c] ∧ c ≠ 34 ∧ c ≠ 92 ∧ ¬ c < 32) ∨
      (∃ e, escape c = [92, e] ∧ e ≠ 117 ∧ unescape e = some c) ∨
      (escape c = [92, 117, 48, 48, hexDigit (c.toNat / 16), hexDigit (c.toNat % 16)] ∧ c < 32) := by
  by_cases hletter : c ∈ ([34, 92, 8, 12, 10, 13, 9, 47] : List UInt8)
  · exact .inr (.inl ⟨_, escape_letter c hletter⟩)
  · simp only [List.mem_cons, List.not_mem_nil, or_false, not_or] at hletter
    obtain ⟨h1, h2, h3, h4, h5, h6, h7, h8⟩ := hletter
    by_cases hlow : c < 32
    · exact .inr (.inr ⟨by simp [escape, h1, h2, h3, h4, h5, h6, h7, hlow], hlow⟩)
    · exact .inl ⟨by simp [escape, h1, h2, h3, h4, h5, h6, h7, hlow, h8], h1, h2, hlow⟩

theorem hexDigit_ne (h : n < 16) : hexDigit n ≠ 34 ∧ hexDigit n ≠ 92 := by
  have hall : ∀ n < 16, hexDigit n ≠ 34 ∧ hexDigit n ≠ 92 := by decide
  exact hall n h

theorem skipQuotes_quote (s : Bytes) : skipQuotes (34 :: s) = some ([], s) := by
  rw [skipQuotes.eq_def]
  simp

theorem skipQuotes_cons (hq : c ≠ 34) (hb : c ≠ 92) (s : Bytes) :
    skipQuotes (c :: s) = (skipQuotes s).map fun (raw, left) => (c :: raw, left) := by
  rw [skipQuotes.eq_def]
  simp [hq, hb]

theorem skipQuotes_pair (d : UInt8) (s : Bytes) :
    skipQuotes (92 :: d :: s) = (skipQuotes s).map fun (raw, left) => (92 :: d :: raw, left) := by
  rw [skipQuotes.eq_def]
  simp

theorem skipQuotes_escape (c : UInt8) (s : Bytes) :
    skipQuotes (escape c ++ s) = (skipQuotes s).map fun (raw, left) => (escape c ++ raw, left) := by
  have hhigh : c.toNat < 32 → c.toNat / 16 < 16 := by omega
  have hlow : c.toNat % 16 < 16 := by omega
  rcases escape_cases c with ⟨he, hq, hb, -⟩ | ⟨e, he, -, -⟩ | ⟨he, hc⟩
  · rw [he]
    exact skipQuotes_cons hq hb s
  · rw [he]
    exact skipQuotes_pair e s
  · have h1 := hexDigit_ne (hhigh (UInt8.lt_iff_toNat_lt.mp hc))
    have h2 := hexDigit_ne hlow
    rw [he]
    simp [skipQuotes_pair, skipQuotes_cons, h1, h2, Option.map_map, Function.comp_def]

theorem processString_cons (hb : c ≠ 92) (hc : ¬ c < 32) (s : Bytes) :
    processString (c :: s) = (processString s).map (c :: ·) := by
  rw [processString.eq_def]
  simp [hb, hc]

theorem processString_pair (hu : e ≠ 117) (hun : unescape e = some c) (s : Bytes) :
    processString (92 :: e :: s) = (processString s).map (c :: ·) := by
  rw [processString.eq_def]
  simp [hu, hun]

theorem processString_utf16 (hx : parseUtf16Hex x1 x2 x3 x4 = some cp) (hcp : cp < 0xD800)
    (s : Bytes) :
    processString (92 :: 117 :: x1 :: x2 :: x3 :: x4 :: s) =
      (processString s).map (utf8Encode cp ++ ·) := by
  rw [processString.eq_def]
  simp [hx, hcp]

theorem parseUtf16Hex_control {c : UInt8} (h : c.toNat < 32) :
    parseUtf16Hex 48 48 (hexDigit (c.toNat / 16)) (hexDigit (c.toNat % 16)) = some c.toNat := by
  have hzero : hexCharToInt 48 = some 0 := rfl
  have hhigh := hexCharToInt_hexDigit (c.toNat / 16) (by omega)
  have hlow := hexCharToInt_hexDigit (c.toNat % 16) (by omega)
  simp only [parseUtf16Hex, hzero, hhigh, hlow, Option.bind_eq_bind, Option.bind_some,
    Option.pure_def, Option.some.injEq]
  omega

theorem processString_escape (c : UInt8) (s : Bytes) :
    processString (escape c ++ s) = (processString s).map (c :: ·) := by
  rcases escape_cases c with ⟨he, -, hb, hc⟩ | ⟨e, he, hu, hun⟩ | ⟨he, hc⟩
  · rw [he]
    exact processString_cons hb hc s
  · rw [he]
    exact processString_pair hu hun s
  · have hc : c.toNat < 32 := UInt8.lt_iff_toNat_lt.mp hc
    have henc : utf8Encode c.toNat = [c] := by
      simp [utf8Encode, show c.toNat < 128 by omega]
    rw [he]
    have h := processString_utf16 (parseUtf16Hex_control hc) (by omega) s
    rwa [henc] at h

theorem skipQuotes_flatMap_escape (s t : Bytes) :
    skipQuotes (s.flatMap escape ++ 34 :: t) = some (s.flatMap escape, t) := by
  induction s with
  | nil => exact skipQuotes_quote t
  | cons c cs ih => simp [skipQuotes_escape, ih]

theorem processString_flatMap_escape (s : Bytes) : processString (s.flatMap escape) = some s := by
  induction s with
  | nil => rfl
  | cons c cs ih => simp [processString_escape, ih]

theorem getQuotedString_serializeString (s t : Bytes) :
    getQuotedString (serializeString s ++ t) = some (s, t) := by
  simp [getQuotedString, serializeString, skipQuotes_flatMap_escape, processString_flatMap_escape]

-- ---------------------------------------------------------------------------
-- Numbers
-- ---------------------------------------------------------------------------

def isDelimiter (c : UInt8) : Bool := c == 44 || c == 93 || c == 125

theorem isDelimiter_cases (h : isDelimiter c) : c = 44 ∨ c = 93 ∨ c = 125 := by
  simpa [isDelimiter, or_assoc] using h

theorem ne_of_isdigit (h : isdigit c) (hd : isdigit d = false) : c ≠ d := by
  rintro rfl
  simp [h] at hd

theorem toupper_of_isdigit (h : isdigit c) : toupper c = c := by
  simp only [isdigit, Bool.and_eq_true, decide_eq_true_eq, UInt8.le_iff_toNat_le] at h
  have h57 : c.toNat ≤ 57 := h.2
  have h97 : ¬ (97 : UInt8) ≤ c := fun hle => by
    have : 97 ≤ c.toNat := UInt8.le_iff_toNat_le.mp hle
    omega
  simp [toupper, h97]

/-- Digits and a delimiter are no infinity, no not-a-number and not
hexadecimal. -/
theorem isExotic_digits (h : ∀ c ∈ ds, isdigit c) (hne : ds ≠ []) (hc : isDelimiter c)
    (t : Bytes) : isExotic (ds ++ c :: t) = false := by
  obtain ⟨d, ds, rfl⟩ := List.exists_cons_of_ne_nil hne
  obtain ⟨hd, hds⟩ := List.forall_mem_cons.mp h
  have hI : d ≠ 73 := ne_of_isdigit hd rfl
  have hN : d ≠ 78 := ne_of_isdigit hd rfl
  have hinf : ∀ u, (bytes "INF").isPrefixOf (d :: u) = false := fun u => by
    simp [bytes, List.isPrefixOf, Ne.symm hI]
  have hnan : ∀ u, (bytes "NAN").isPrefixOf (d :: u) = false := fun u => by
    simp [bytes, List.isPrefixOf, Ne.symm hN]
  have hhead : ∀ u, ((d :: u).take 3).map toupper = d :: (u.take 2).map toupper := fun u => by
    simp [toupper_of_isdigit hd]
  have hsecond : ∀ x u, ds ++ c :: t = x :: u → x ≠ 120 ∧ x ≠ 88 := by
    intro x u hxu
    cases ds with
    | nil =>
      obtain ⟨rfl, -⟩ := List.cons.inj hxu
      rcases isDelimiter_cases hc with rfl | rfl | rfl <;> decide
    | cons e es =>
      obtain ⟨rfl, -⟩ := List.cons.inj hxu
      have he := hds e (List.mem_cons_self ..)
      exact ⟨ne_of_isdigit he rfl, ne_of_isdigit he rfl⟩
  unfold isExotic
  rw [List.cons_append, hhead, hinf, hnan]
  simp only [Bool.false_or]
  split
  · rename_i x e rest heq
    obtain ⟨-, heq⟩ := List.cons.inj heq
    have hx := hsecond x _ heq
    simp [hx.1, hx.2]
  · rfl

theorem scanExponent_delimiter (hc : isDelimiter c) (t : Bytes) : scanExponent (c :: t) = ([], 0) := by
  rcases isDelimiter_cases hc with rfl | rfl | rfl <;> simp [scanExponent]

theorem strtod_digits (h : ∀ c ∈ ds, isdigit c) (hne : ds ≠ []) (hc : isDelimiter c) (t : Bytes) :
    strtod (ds ++ c :: t) = (ds, .ofNat (decVal ds)) := by
  have hdigit : isdigit c = false := by
    rcases isDelimiter_cases hc with rfl | rfl | rfl <;> rfl
  have hpoint : c ≠ 46 := by
    rcases isDelimiter_cases hc with rfl | rfl | rfl <;> decide
  have hsign : (ds ++ c :: t).head? ≠ some 45 := by
    obtain ⟨d, ds, rfl⟩ := List.exists_cons_of_ne_nil hne
    have hd := h d (List.mem_cons_self ..)
    simpa using ne_of_isdigit hd rfl
  have hhead : (c :: t).head? ≠ some 46 := by simpa using hpoint
  simp only [strtod, if_neg hsign, List.length_nil, List.drop_zero, digits_append h hdigit,
    List.drop_left, if_neg hhead, List.append_nil, if_neg hne, scanExponent_delimiter hc,
    Nat.add_zero]
  simp [Decimal.ofNat]

theorem isDecimal_dec (n : Nat) : isDecimal (dec n) := by
  have hlead : 1 < (dec n).length → (dec n).head? ≠ some 48 := by
    intro hlen
    rcases Nat.eq_zero_or_pos n with rfl | hn
    · exact absurd hlen (by decide)
    · obtain ⟨d, ds, hd, hne⟩ := exists_dec_eq_cons hn
      simpa [hd] using hne
  have hminus : (bytes "-0").isPrefixOf (dec n) = false := by
    obtain ⟨d, ds, hd⟩ := List.exists_cons_of_ne_nil (dec_ne_nil n)
    have hdig : isdigit d := isdigit_of_mem_dec (n := n) (hd ▸ List.mem_cons_self ..)
    have hne : d ≠ 45 := ne_of_isdigit hdig rfl
    rw [hd]
    simp [bytes, List.isPrefixOf, Ne.symm hne]
  have hx : (dec n).all fun c => c != 120 && c != 88 := by
    rw [List.all_eq_true]
    intro c hc
    have hdig := isdigit_of_mem_dec hc
    simp [ne_of_isdigit hdig (show isdigit 120 = false from rfl),
      ne_of_isdigit hdig (show isdigit 88 = false from rfl)]
  simp only [isDecimal, hminus, hx, Bool.and_true, Bool.and_false, Bool.false_and,
    Bool.not_false, Bool.not_eq_true', Bool.and_eq_false_iff, decide_eq_false_iff_not,
    beq_eq_false_iff_ne]
  by_cases hlen : 1 < (dec n).length
  · exact .inl (.inr (hlead hlen))
  · exact .inl (.inl hlen)

theorem parseNumberValue_dec (hn : (Decimal.ofNat n).finite) (hc : isDelimiter c) (t : Bytes) :
    parseNumberValue (dec n ++ c :: t) = some (.number (.ofNat n), c :: t) := by
  have hdig : ∀ c ∈ dec n, isdigit c := fun _ => isdigit_of_mem_dec
  have hsign : (dec n ++ c :: t).head? ≠ some 45 := by
    obtain ⟨d, ds, hd⟩ := List.exists_cons_of_ne_nil (dec_ne_nil n)
    have hd' := hdig d (hd ▸ List.mem_cons_self ..)
    simpa [hd] using ne_of_isdigit hd' rfl
  simp only [parseNumberValue, unsigned, if_neg hsign, isExotic_digits hdig (dec_ne_nil n) hc,
    strtod_digits hdig (dec_ne_nil n) hc, decVal_dec, hn, isDecimal_dec, List.drop_left]
  rfl

-- ---------------------------------------------------------------------------
-- Round trip
-- ---------------------------------------------------------------------------

/-- The values the program builds, at a nesting the parser accepts: numbers
are natural, and an object's names are distinct and hold no NUL. -/
inductive Writable : Nat → Value → Prop
  | null (hn : n ≤ maxNesting) : Writable n .null
  | boolean (hn : n ≤ maxNesting) (b : Bool) : Writable n (.boolean b)
  | number (hn : n ≤ maxNesting) (k : Nat) (hk : (Decimal.ofNat k).finite) :
    Writable n (.number (.ofNat k))
  | string (hn : n ≤ maxNesting) (s : Bytes) : Writable n (.string s)
  | array (hn : n ≤ maxNesting) (hitems : ∀ v ∈ items, Writable (n + 1) v) :
    Writable n (.array items)
  | object (hn : n ≤ maxNesting) (hnames : ∀ m ∈ members, (0 : UInt8) ∉ m.1)
    (hdistinct : (members.map (·.1)).Nodup) (hmembers : ∀ m ∈ members, Writable (n + 1) m.2) :
    Writable n (.object members)

def Follows (v : Value) (t : Bytes) : Prop :=
  ∀ d, v = .number d → ∃ c r, t = c :: r ∧ isDelimiter c

def ReadsBack (n : Nat) (v : Value) : Prop :=
  ∀ fuel t, 2 * (serialize v).length < fuel → Follows v t →
    parseValue fuel n (serialize v ++ t) = some (v, t)

theorem finite_ofNat (h : n < 65536) : (Decimal.ofNat n).finite := by
  have hover : (65536 : Nat) ≤ doubleOverflow := by decide +kernel
  simp [Decimal.finite, Decimal.ofNat]
  omega

theorem serializeNumber_ofNat (k : Nat) : serializeNumber (.ofNat k) = dec k := by
  have htrunc : (Decimal.ofNat k).trunc = k := by simp [Decimal.trunc, Decimal.ofNat]
  simp [serializeNumber, htrunc]

theorem skipWhitespaces_cons (h : isspace c = false) (s : Bytes) :
    skipWhitespaces (c :: s) = c :: s := by
  simp [skipWhitespaces, h]

theorem serialize_head (h : Writable n v) :
    ∃ c r, serialize v = c :: r ∧ isspace c = false ∧ c ≠ 93 := by
  cases h with
  | null => exact ⟨110, bytes "ull", rfl, by decide, by decide⟩
  | boolean _ b =>
    cases b
    · exact ⟨102, bytes "alse", rfl, by decide, by decide⟩
    · exact ⟨116, bytes "rue", rfl, by decide, by decide⟩
  | number _ k _ =>
    obtain ⟨d, ds, hd⟩ := List.exists_cons_of_ne_nil (dec_ne_nil k)
    have hdig : isdigit d := isdigit_of_mem_dec (n := k) (hd ▸ List.mem_cons_self ..)
    exact ⟨d, ds, by rw [serialize, serializeNumber_ofNat, hd], isspace_of_isdigit hdig,
      ne_of_isdigit hdig rfl⟩
  | string _ s => exact ⟨34, _, by rw [serialize, serializeString], by decide, by decide⟩
  | array => exact ⟨91, _, by rw [serialize], by decide, by decide⟩
  | object => exact ⟨123, _, by rw [serialize], by decide, by decide⟩

theorem follows_comma (v : Value) (t : Bytes) : Follows v (44 :: t) := fun _ _ => ⟨44, t, rfl, rfl⟩

theorem follows_close (v : Value) (hc : c = 93 ∨ c = 125) (t : Bytes) : Follows v (c :: t) :=
  fun _ _ => ⟨c, t, rfl, by rcases hc with rfl | rfl <;> rfl⟩

theorem parseNext_close (hc : c = 93 ∨ c = 125) (t : Bytes) :
    parseNext c (c :: t) = some (.stop t) := by
  rcases hc with rfl | rfl <;> rfl

theorem parseNext_comma (hspace : isspace d = false) (hd : d ≠ close) (t : Bytes) :
    parseNext close (44 :: d :: t) = some (.more (d :: t)) := by
  simp [parseNext, skipWhitespaces_cons (show isspace 44 = false from rfl),
    skipWhitespaces_cons hspace, hd]

theorem serializeItems_cons (v : Value) (h : items ≠ []) :
    serializeItems (v :: items) = serialize v ++ 44 :: serializeItems items := by
  cases items with
  | nil => contradiction
  | cons w rest => rw [serializeItems]; simp

theorem serializeMembers_cons (m : Bytes × Value) (h : members ≠ []) :
    serializeMembers (m :: members) =
      serializeString m.1 ++ 58 :: (serialize m.2 ++ 44 :: serializeMembers members) := by
  cases members with
  | nil => contradiction
  | cons w rest => rw [serializeMembers]; simp

theorem serializeItems_head (hne : items ≠ []) (hw : ∀ v ∈ items, Writable n v) (t : Bytes) :
    ∃ c r, serializeItems items ++ t = c :: r ∧ isspace c = false ∧ c ≠ 93 := by
  obtain ⟨v, rest, rfl⟩ := List.exists_cons_of_ne_nil hne
  obtain ⟨c, r, hc, hspace, hclose⟩ := serialize_head (hw v (List.mem_cons_self ..))
  by_cases hrest : rest = []
  · subst hrest
    exact ⟨c, r ++ t, by rw [serializeItems, hc]; rfl, hspace, hclose⟩
  · exact ⟨c, _, by rw [serializeItems_cons v hrest, hc]; rfl, hspace, hclose⟩

theorem serializeMembers_head (hne : members ≠ []) (t : Bytes) :
    ∃ r, serializeMembers members ++ t = 34 :: r := by
  obtain ⟨m, rest, rfl⟩ := List.exists_cons_of_ne_nil hne
  by_cases hrest : rest = []
  · subst hrest
    exact ⟨_, by rw [serializeMembers, serializeString]; rfl⟩
  · exact ⟨_, by rw [serializeMembers_cons m hrest, serializeString]; rfl⟩

theorem parseItems_serialize (hne : items ≠ []) (hread : ∀ v ∈ items, ReadsBack n v)
    (hw : ∀ v ∈ items, Writable n v) (hfuel : 2 * (serializeItems items).length + 1 < fuel)
    (acc : List Value) (t : Bytes) :
    parseItems fuel n acc (serializeItems items ++ 93 :: t) = some (.array (acc ++ items), t) := by
  induction items generalizing fuel acc with
  | nil => contradiction
  | cons v items ih =>
    obtain ⟨fuel, rfl⟩ := Nat.exists_eq_succ_of_ne_zero (Nat.ne_zero_of_lt hfuel)
    obtain ⟨hv, hitems⟩ := List.forall_mem_cons.mp hread
    obtain ⟨-, hwitems⟩ := List.forall_mem_cons.mp hw
    by_cases hnil : items = []
    · subst hnil
      rw [serializeItems] at hfuel ⊢
      have hvalue := hv fuel (93 :: t) (by omega) (follows_close v (.inl rfl) t)
      simp only [parseItems, hvalue, parseNext_close (.inl rfl)]
    · rw [serializeItems_cons v hnil] at hfuel ⊢
      simp only [List.length_append, List.length_cons] at hfuel
      have hvalue := hv fuel (44 :: (serializeItems items ++ 93 :: t)) (by omega) (follows_comma v _)
      obtain ⟨c, r, hc, hspace, hclose⟩ := serializeItems_head hnil hwitems (93 :: t)
      have hnext : parseNext 93 (44 :: (serializeItems items ++ 93 :: t)) =
          some (.more (serializeItems items ++ 93 :: t)) := by
        rw [hc]
        exact parseNext_comma hspace hclose r
      have hrec : parseItems fuel n (acc ++ [v]) (serializeItems items ++ 93 :: t) =
          some (.array (acc ++ [v] ++ items), t) :=
        ih hnil hitems hwitems (by omega) (acc ++ [v])
      rw [List.append_assoc, List.cons_append]
      simp only [parseItems, hvalue, hnext, hrec]
      simp

theorem parseName_serialize (hname : (0 : UInt8) ∉ name) (s : Bytes) :
    parseName (serializeString name ++ 58 :: s) = some (name, s) := by
  simp [parseName, getQuotedString_serializeString, hname,
    skipWhitespaces_cons (show isspace 58 = false from rfl)]

theorem parseMembers_serialize (hne : members ≠ []) (hread : ∀ m ∈ members, ReadsBack n m.2)
    (hnames : ∀ m ∈ members, (0 : UInt8) ∉ m.1)
    (hdistinct : ((acc ++ members).map (·.1)).Nodup)
    (hfuel : 2 * (serializeMembers members).length < fuel) (t : Bytes) :
    parseMembers fuel n acc (serializeMembers members ++ 125 :: t) =
      some (.object (acc ++ members), t) := by
  induction members generalizing fuel acc with
  | nil => contradiction
  | cons m members ih =>
    obtain ⟨fuel, rfl⟩ := Nat.exists_eq_succ_of_ne_zero (Nat.ne_zero_of_lt hfuel)
    obtain ⟨hm, hmembers⟩ := List.forall_mem_cons.mp hread
    obtain ⟨hname, hnames⟩ := List.forall_mem_cons.mp hnames
    have hnew : acc.any (·.1 == m.1) = false := by
      rw [List.map_append, List.nodup_append] at hdistinct
      rw [List.any_eq_false]
      intro a ha heq
      exact hdistinct.2.2 a.1 (List.mem_map_of_mem ha) m.1 (by simp) (beq_iff_eq.mp heq)
    by_cases hnil : members = []
    · subst hnil
      rw [serializeMembers] at hfuel ⊢
      simp only [List.length_append, List.length_cons] at hfuel
      have hvalue := hm fuel (125 :: t) (by omega) (follows_close m.2 (.inr rfl) t)
      simp only [parseMembers, List.append_assoc, List.cons_append, parseName_serialize hname,
        hvalue, hnew, parseNext_close (.inr rfl)]
      rfl
    · rw [serializeMembers_cons m hnil] at hfuel ⊢
      simp only [List.length_append, List.length_cons] at hfuel
      have hvalue := hm fuel (44 :: (serializeMembers members ++ 125 :: t)) (by omega)
        (follows_comma m.2 _)
      obtain ⟨r, hr⟩ := serializeMembers_head hnil (125 :: t)
      have hnext : parseNext 125 (44 :: (serializeMembers members ++ 125 :: t)) =
          some (.more (serializeMembers members ++ 125 :: t)) := by
        rw [hr]
        exact parseNext_comma (by decide) (by decide) r
      have hrec : parseMembers fuel n (acc ++ [m]) (serializeMembers members ++ 125 :: t) =
          some (.object (acc ++ [m] ++ members), t) :=
        ih hnil hmembers hnames (by simpa using hdistinct) (by omega)
      simp only [parseMembers, List.append_assoc, List.cons_append, parseName_serialize hname,
        hvalue, hnew, hnext, hrec]
      simp

theorem parseOpened_close (hspace : isspace close = false) (t : Bytes) :
    parseOpened close empty parseMore (close :: t) = some (empty, t) := by
  simp [parseOpened, skipWhitespaces_cons hspace]

theorem parseOpened_more (hspace : isspace d = false) (hd : d ≠ close) (t : Bytes) :
    parseOpened close empty parseMore (d :: t) = parseMore (d :: t) := by
  simp [parseOpened, skipWhitespaces_cons hspace, hd]

theorem readsBack_array (hn : n ≤ maxNesting) (hread : ∀ v ∈ items, ReadsBack (n + 1) v)
    (hw : ∀ v ∈ items, Writable (n + 1) v) : ReadsBack n (.array items) := by
  intro fuel t hfuel _
  obtain ⟨fuel, rfl⟩ := Nat.exists_eq_succ_of_ne_zero (Nat.ne_zero_of_lt hfuel)
  rw [serialize] at hfuel ⊢
  simp only [List.length_append, List.length_cons, List.length_nil] at hfuel
  rw [List.cons_append, List.append_assoc, List.cons_append, List.nil_append,
    parseValue_array hn (skipWhitespaces_cons rfl _)]
  by_cases hnil : items = []
  · subst hnil
    exact parseOpened_close rfl t
  · obtain ⟨c, r, hc, hspace, hclose⟩ := serializeItems_head hnil hw (93 :: t)
    rw [hc, parseOpened_more hspace hclose, ← hc]
    exact parseItems_serialize hnil hread hw (by omega) [] t

theorem readsBack_object (hn : n ≤ maxNesting) (hread : ∀ m ∈ members, ReadsBack (n + 1) m.2)
    (hnames : ∀ m ∈ members, (0 : UInt8) ∉ m.1) (hdistinct : (members.map (·.1)).Nodup) :
    ReadsBack n (.object members) := by
  intro fuel t hfuel _
  obtain ⟨fuel, rfl⟩ := Nat.exists_eq_succ_of_ne_zero (Nat.ne_zero_of_lt hfuel)
  rw [serialize] at hfuel ⊢
  simp only [List.length_append, List.length_cons, List.length_nil] at hfuel
  rw [List.cons_append, List.append_assoc, List.cons_append, List.nil_append,
    parseValue_object hn (skipWhitespaces_cons rfl _)]
  by_cases hnil : members = []
  · subst hnil
    exact parseOpened_close rfl t
  · obtain ⟨r, hr⟩ := serializeMembers_head hnil (125 :: t)
    rw [hr, parseOpened_more rfl (by decide), ← hr]
    exact parseMembers_serialize hnil hread hnames (by simpa using hdistinct) (by omega) t

theorem parseValue_serialize (h : Writable n v) : ReadsBack n v := by
  induction h with
  | null hn =>
    intro fuel t hfuel _
    obtain ⟨fuel, rfl⟩ := Nat.exists_eq_succ_of_ne_zero (Nat.ne_zero_of_lt hfuel)
    simp [serialize, parseValue, Nat.not_lt.mpr hn, bytes, skipWhitespaces, isspace,
      isNumberStart, isdigit, parseLiteral, List.isPrefixOf]
  | boolean hn b =>
    intro fuel t hfuel _
    obtain ⟨fuel, rfl⟩ := Nat.exists_eq_succ_of_ne_zero (Nat.ne_zero_of_lt hfuel)
    cases b <;>
      simp [serialize, parseValue, Nat.not_lt.mpr hn, bytes, skipWhitespaces, isspace,
        parseBooleanValue, parseLiteral, List.isPrefixOf]
  | number hn k hk =>
    intro fuel t hfuel hfollows
    obtain ⟨fuel, rfl⟩ := Nat.exists_eq_succ_of_ne_zero (Nat.ne_zero_of_lt hfuel)
    obtain ⟨c, r, rfl, hc⟩ := hfollows _ rfl
    have hnumber := parseNumberValue_dec hk hc r
    obtain ⟨d, ds, hd⟩ := List.exists_cons_of_ne_nil (dec_ne_nil k)
    have hdig : isdigit d := isdigit_of_mem_dec (n := k) (hd ▸ List.mem_cons_self ..)
    have hne (e : UInt8) (he : isdigit e = false) : d ≠ e := ne_of_isdigit hdig he
    rw [serialize, serializeNumber_ofNat]
    rw [hd, List.cons_append] at hnumber ⊢
    simp [parseValue, Nat.not_lt.mpr hn, skipWhitespaces_cons (isspace_of_isdigit hdig),
      hne 123 rfl, hne 91 rfl, hne 34 rfl, hne 102 rfl, hne 116 rfl, isNumberStart, hdig, hnumber]
  | string hn s =>
    intro fuel t hfuel _
    obtain ⟨fuel, rfl⟩ := Nat.exists_eq_succ_of_ne_zero (Nat.ne_zero_of_lt hfuel)
    have hquoted : getQuotedString (34 :: (s.flatMap escape ++ 34 :: t)) = some (s, t) := by
      simpa [serializeString] using getQuotedString_serializeString s t
    simp [serialize, serializeString, parseValue, Nat.not_lt.mpr hn,
      skipWhitespaces_cons (show isspace 34 = false from rfl), parseStringValue, hquoted]
  | array hn hitems ih => exact readsBack_array hn ih hitems
  | object hn hnames hdistinct _ ih => exact readsBack_object hn ih hnames hdistinct

-- ---------------------------------------------------------------------------
-- Texts without NUL
-- ---------------------------------------------------------------------------

theorem zero_notMem_escape (c : UInt8) : (0 : UInt8) ∉ escape c := by
  have hdigit : ∀ n < 16, hexDigit n ≠ 0 := by decide
  rcases escape_cases c with ⟨he, -, -, hc⟩ | ⟨e, he, -, hun⟩ | ⟨he, hc⟩
  · rw [he, List.mem_singleton]
    rintro rfl
    exact hc (by decide)
  · have hzero : e ≠ 0 := by
      rintro rfl
      simp [unescape] at hun
    rw [he]
    simpa using Ne.symm hzero
  · have hc : c.toNat < 32 := UInt8.lt_iff_toNat_lt.mp hc
    have hhigh := hdigit (c.toNat / 16) (by omega)
    have hlow := hdigit (c.toNat % 16) (by omega)
    rw [he]
    simp [Ne.symm hhigh, Ne.symm hlow]

theorem zero_notMem_serializeString (s : Bytes) : (0 : UInt8) ∉ serializeString s := by
  simp only [serializeString, List.mem_cons, List.mem_append, List.mem_flatMap, not_or, not_exists,
    not_and]
  exact ⟨by decide, fun c _ => zero_notMem_escape c, by decide, by simp⟩

theorem zero_notMem_dec (n : Nat) : (0 : UInt8) ∉ dec n := fun h =>
  absurd (isdigit_of_mem_dec h) (by decide)

theorem zero_notMem_serializeNumber (d : Decimal) : (0 : UInt8) ∉ serializeNumber d := by
  unfold serializeNumber
  split
  · simp [zero_notMem_dec]
  · exact zero_notMem_dec _

mutual
theorem zero_notMem_serialize : (v : Value) → (0 : UInt8) ∉ serialize v
  | .null => by decide
  | .boolean true => by decide
  | .boolean false => by decide
  | .number d => by
    rw [serialize]
    exact zero_notMem_serializeNumber d
  | .string s => by
    rw [serialize]
    exact zero_notMem_serializeString s
  | .array items => by
    rw [serialize]
    simpa using zero_notMem_serializeItems items
  | .object members => by
    rw [serialize]
    simpa using zero_notMem_serializeMembers members
theorem zero_notMem_serializeItems : (items : List Value) → (0 : UInt8) ∉ serializeItems items
  | [] => by simp [serializeItems]
  | [v] => by
    rw [serializeItems]
    exact zero_notMem_serialize v
  | v :: w :: rest => by
    rw [serializeItems_cons v (List.cons_ne_nil w rest)]
    simpa using ⟨zero_notMem_serialize v, zero_notMem_serializeItems (w :: rest)⟩
theorem zero_notMem_serializeMembers : (members : List (Bytes × Value)) →
    (0 : UInt8) ∉ serializeMembers members
  | [] => by simp [serializeMembers]
  | [(name, v)] => by
    rw [serializeMembers]
    simpa using ⟨zero_notMem_serializeString name, zero_notMem_serialize v⟩
  | (name, v) :: w :: rest => by
    rw [serializeMembers_cons (name, v) (List.cons_ne_nil w rest)]
    simpa using ⟨zero_notMem_serializeString name, zero_notMem_serialize v,
      zero_notMem_serializeMembers (w :: rest)⟩
end

/-- An object's text is read back by `jsonParseString`, whatever follows it. -/
theorem jsonParseString_serialize (h : Writable 0 (.object members)) (t : Bytes) :
    jsonParseString (serialize (.object members) ++ t) = some (.object members) := by
  have hread := parseValue_serialize h (2 * (serialize (.object members) ++ t).length + 1) t
    (by rw [List.length_append]; omega) (fun _ hd => nomatch hd)
  have hbom : [0xEF, 0xBB, 0xBF].isPrefixOf (serialize (.object members) ++ t) = false := by
    rw [serialize]
    rfl
  rw [jsonParseString, hbom, if_neg Bool.false_ne_true, parseText, hread]
  rfl

-- ---------------------------------------------------------------------------
-- Members that are set
-- ---------------------------------------------------------------------------

theorem find?_setValue (members : Object) (name key : Bytes) (v : Value) :
    (objectSetValue members name (some v)).find? (·.1 == key) =
      if name = key then some (name, v) else members.find? (·.1 == key) := by
  have hmap : (members.map fun m => if m.1 == name then (name, v) else m).find? (·.1 == key) =
      if name = key then (members.find? (·.1 == name)).map fun _ => (name, v)
      else members.find? (·.1 == key) := by
    induction members with
    | nil => simp
    | cons m members ih =>
      rw [List.map_cons, List.find?_cons, List.find?_cons, List.find?_cons, ih]
      grind
  unfold objectSetValue
  dsimp only
  split
  case isTrue hany =>
    rw [hmap]
    obtain ⟨m, hm⟩ : ∃ m, members.find? (·.1 == name) = some m := by
      rw [← Option.isSome_iff_exists, List.find?_isSome]
      exact List.any_eq_true.mp hany
    rw [hm]
    rfl
  case isFalse hany =>
    rw [List.find?_append]
    grind

theorem objectGetValue_setValue (members : Object) (name key : Bytes) (v : Value) :
    objectGetValue (some (objectSetValue members name (some v))) key =
      if name = key then some v else objectGetValue (some members) key := by
  simp only [objectGetValue, Option.bind_some, find?_setValue]
  split <;> rfl

theorem isValidUtf8_of_ascii (h : ∀ c ∈ s, c < 128) : isValidUtf8 s := by
  have hhead : ∀ c : UInt8, c < 128 → ∀ cs, verifyUtf8Sequence (c :: cs) = some 1 := by
    intro c hc cs
    have hbits : ∀ c : UInt8, c < 128 → (c == 0xC0 || c == 0xC1 || 0xF4 < c || isCont c) = false ∧
        (c &&& 0x80 == 0) = true ∧ c.toNat < 128 := by decide +kernel
    obtain ⟨hfirst, hlow, hnat⟩ := hbits c hc
    simp [verifyUtf8Sequence, utf8Head, hfirst, hlow]
    omega
  unfold isValidUtf8
  induction s with
  | nil => rfl
  | cons c cs ih =>
    rw [isValidUtf8From, hhead c (h c (List.mem_cons_self ..)) cs]
    exact ih fun c hc => h c (List.mem_cons_of_mem _ hc)

theorem writable_setValue (h : Writable n (.object members)) (hname : (0 : UInt8) ∉ name)
    (hv : Writable (n + 1) v) : Writable n (.object (objectSetValue members name (some v))) := by
  cases h with
  | object hn hnames hdistinct hmembers =>
  unfold objectSetValue
  dsimp only
  split
  case isTrue hany =>
    have hkeys : (members.map fun m => if m.1 == name then (name, v) else m).map (·.1) =
        members.map (·.1) := by
      rw [List.map_map]
      refine List.map_congr_left fun m _ => ?_
      by_cases hm : m.1 = name <;> simp [hm]
    refine .object hn (fun m hm => ?_) (hkeys ▸ hdistinct) fun m hm => ?_
    all_goals
      obtain ⟨m', hm', rfl⟩ := List.mem_map.mp hm
      split
    · exact hname
    · exact hnames m' hm'
    · exact hv
    · exact hmembers m' hm'
  case isFalse hany =>
    refine .object hn (fun m hm => ?_) ?_ fun m hm => ?_
    · rcases List.mem_append.mp hm with hm | hm
      · exact hnames m hm
      · cases List.mem_singleton.mp hm
        exact hname
    · rw [List.map_append, List.nodup_append]
      refine ⟨hdistinct, List.nodup_singleton name, fun a ha b hb hab => hany ?_⟩
      obtain ⟨m, hm, rfl⟩ := List.mem_map.mp ha
      cases List.mem_singleton.mp hb
      exact List.any_eq_true.mpr ⟨m, hm, beq_iff_eq.mpr hab⟩
    · rcases List.mem_append.mp hm with hm | hm
      · exact hmembers m hm
      · cases List.mem_singleton.mp hm
        exact hv

theorem writable_setString (h : Writable n (.object members)) (hname : (0 : UInt8) ∉ name)
    (hn : n < maxNesting) (s : Bytes) :
    Writable n (.object (objectSetString members name s)) := by
  unfold objectSetString valueInitString
  split
  · exact writable_setValue h hname (.string hn s)
  · exact h

end GeoNS.Parson
