import GeoNS.Parson.Laws

/-!
# What the parser takes

The parser decides on a value by the text it takes the value from. With
anything else behind that text, it takes the same value from it.
-/

namespace GeoNS.Parson

open CString

/-- `f` takes `w`, at the head of any text, for `a`. -/
def Takes (f : Bytes → Option (α × Bytes)) (w : Bytes) (a : α) : Prop :=
  ∀ t, f (w ++ t) = some (a, t)

-- ---------------------------------------------------------------------------
-- White space and strings
-- ---------------------------------------------------------------------------

theorem isspace_of_skipWhitespaces (h : skipWhitespaces s = c :: rest) : isspace c = false := by
  have hhead := List.head?_dropWhile_not isspace s
  rw [skipWhitespaces] at h
  simpa [h] using hhead

theorem skipWhitespaces_takes (h : skipWhitespaces s = c :: rest) :
    ∃ w, s = w ++ c :: rest ∧ ∀ t, skipWhitespaces (w ++ c :: t) = c :: t := by
  have hspace := isspace_of_skipWhitespaces h
  refine ⟨s.takeWhile isspace, ?_, fun t => ?_⟩
  · rw [← h, skipWhitespaces, List.takeWhile_append_dropWhile]
  · rw [skipWhitespaces, List.dropWhile_append_of_pos fun a ha => List.mem_takeWhile_imp ha]
    exact skipWhitespaces_cons hspace t

theorem skipQuotes_takes (h : skipQuotes s = some (raw, left)) :
    ∃ w, s = w ++ left ∧ Takes skipQuotes w raw := by
  fun_induction skipQuotes s generalizing raw left with
  | case1 => contradiction
  | case2 rest =>
    cases h
    exact ⟨[34], rfl, skipQuotes_quote⟩
  | case3 => contradiction
  | case4 d rest _ ih =>
    obtain ⟨⟨raw', left'⟩, hrest, heq⟩ := Option.map_eq_some_iff.mp h
    cases heq
    obtain ⟨w, rfl, htakes⟩ := ih hrest
    refine ⟨92 :: d :: w, rfl, fun t => ?_⟩
    rw [List.cons_append, List.cons_append, skipQuotes_pair, htakes]
    rfl
  | case5 c rest hquote hescape ih =>
    obtain ⟨⟨raw', left'⟩, hrest, heq⟩ := Option.map_eq_some_iff.mp h
    cases heq
    obtain ⟨w, rfl, htakes⟩ := ih hrest
    refine ⟨c :: w, rfl, fun t => ?_⟩
    rw [List.cons_append, skipQuotes_cons hquote hescape, htakes]
    rfl

theorem getQuotedString_takes (h : getQuotedString s = some (chars, left)) :
    ∃ w, s = w ++ left ∧ Takes getQuotedString w chars := by
  cases s with
  | nil => contradiction
  | cons c rest =>
    simp only [getQuotedString] at h
    split at h
    case isFalse => contradiction
    rename_i hquote
    cases hquotes : skipQuotes rest with
    | none => simp [hquotes] at h
    | some r =>
      obtain ⟨raw, left'⟩ := r
      simp only [hquotes, Option.map_eq_some_iff] at h
      obtain ⟨chars', hchars, heq⟩ := h
      cases heq
      obtain ⟨w, rfl, htakes⟩ := skipQuotes_takes hquotes
      refine ⟨c :: w, rfl, fun t => ?_⟩
      simp [getQuotedString, hquote, htakes t, hchars]

theorem parseName_takes (h : parseName s = some (name, left)) :
    ∃ w, s = w ++ left ∧ Takes parseName w name := by
  unfold parseName at h
  cases hquoted : getQuotedString s with
  | none => simp [hquoted] at h
  | some r =>
    obtain ⟨name', left'⟩ := r
    obtain ⟨w, rfl, htakes⟩ := getQuotedString_takes hquoted
    simp only [hquoted] at h
    split at h
    case isTrue => contradiction
    rename_i hzero
    cases hskip : skipWhitespaces left' with
    | nil => simp [hskip] at h
    | cons c rest =>
      simp only [hskip] at h
      split at h
      case isFalse => contradiction
      rename_i hcolon
      subst hcolon
      cases h
      obtain ⟨w', rfl, hskips⟩ := skipWhitespaces_takes hskip
      refine ⟨w ++ (w' ++ [58]), by simp, fun t => ?_⟩
      have htext : w ++ (w' ++ [58]) ++ t = w ++ (w' ++ 58 :: t) := by simp
      simp only [parseName, htext, htakes (w' ++ 58 :: t), hzero, if_false, hskips t, if_true]

-- ---------------------------------------------------------------------------
-- Literals and numbers
-- ---------------------------------------------------------------------------

theorem parseLiteral_takes (h : parseLiteral token v s = some (v', left)) :
    ∃ w, s = w ++ left ∧ Takes (parseLiteral token v) w v' := by
  unfold parseLiteral at h
  split at h
  case isFalse => contradiction
  rename_i hprefix
  obtain ⟨rest, rfl⟩ := List.isPrefixOf_iff_prefix.mp hprefix
  cases h
  refine ⟨token, by simp, fun t => ?_⟩
  simp [parseLiteral]

theorem parseBooleanValue_takes (h : parseBooleanValue s = some (v, left)) :
    ∃ w, s = w ++ left ∧ Takes parseBooleanValue w v := by
  unfold parseBooleanValue at h
  cases htrue : parseLiteral (bytes "true") (.boolean true) s with
  | some r =>
    rw [htrue] at h
    cases h
    obtain ⟨w, rfl, htakes⟩ := parseLiteral_takes htrue
    refine ⟨w, rfl, fun t => ?_⟩
    rw [parseBooleanValue, htakes]
  | none =>
    rw [htrue] at h
    dsimp only at h
    unfold parseLiteral at h
    split at h
    case isFalse => contradiction
    rename_i hprefix
    obtain ⟨rest, rfl⟩ := List.isPrefixOf_iff_prefix.mp hprefix
    cases h
    refine ⟨bytes "false", by simp, fun t => ?_⟩
    simp [parseBooleanValue, parseLiteral, bytes, List.isPrefixOf]

def isStop (c : UInt8) : Bool := isspace c || isDelimiter c

theorem ne_of_isStop (hc : isStop c) (hd : isStop d = false) : c ≠ d := by
  rintro rfl
  simp [hc] at hd

theorem isdigit_of_isStop (hc : isStop c) : isdigit c = false := by
  have hall : ∀ c : UInt8, isStop c → isdigit c = false := by decide +kernel
  exact hall c hc

theorem isHexDigit_of_isStop (hc : isStop c) : isHexDigit c = false := by
  have hall : ∀ c : UInt8, isStop c → isHexDigit c = false := by decide +kernel
  exact hall c hc

theorem toupper_of_isStop (hc : isStop c) : toupper c = c := by
  have hall : ∀ c : UInt8, isStop c → toupper c = c := by decide +kernel
  exact hall c hc

theorem head?_append_stop (hc : isStop c) (hd : isStop d = false) (w r : Bytes) :
    (w ++ c :: r).head? = some d ↔ w.head? = some d := by
  cases w with
  | nil => simpa using ne_of_isStop hc hd
  | cons => rfl

theorem digits_append_stop (hc : isStop c) (w r : Bytes) : digits (w ++ c :: r) = digits w :=
  digits_append_cons (isdigit_of_isStop hc) w r

theorem length_digits_le (w : Bytes) : (digits w).length ≤ w.length :=
  (List.takeWhile_prefix _).length_le

theorem scanExponent_append_stop (hc : isStop c) (w r : Bytes) :
    scanExponent (w ++ c :: r) = scanExponent w := by
  cases w with
  | nil =>
    have hlower : c ≠ 101 := ne_of_isStop hc rfl
    have hupper : c ≠ 69 := ne_of_isStop hc rfl
    simp [scanExponent, hlower, hupper]
  | cons e w =>
    simp only [scanExponent, List.cons_append, Bool.or_eq_true, decide_eq_true_eq,
      head?_append_stop hc (show isStop 45 = false from rfl),
      head?_append_stop hc (show isStop 43 = false from rfl)]
    have htake : (if w.head? = some 45 ∨ w.head? = some 43 then (w ++ c :: r).take 1 else []) =
        if w.head? = some 45 ∨ w.head? = some 43 then w.take 1 else [] := by
      cases w <;> simp
    have hlen : (if w.head? = some 45 ∨ w.head? = some 43 then w.take 1 else []).length ≤ w.length := by
      split <;> simp
    rw [htake, List.drop_append_of_le_length hlen, digits_append_stop hc]

theorem length_fraction_le (u : Bytes) :
    (if u.head? = some 46 then [(46 : UInt8)] else []).length +
      (if u.head? = some 46 then digits (u.drop 1) else []).length ≤ u.length := by
  cases u with
  | nil => simp
  | cons d u =>
    have := length_digits_le u
    split
    · simpa [Nat.add_comm] using this
    · simp

theorem strtod_append_stop (hc : isStop c) (w r : Bytes) : strtod (w ++ c :: r) = strtod w := by
  have hdrop (v u : Bytes) (hle : u.length ≤ v.length) :
      (v ++ c :: r).drop u.length = v.drop u.length ++ c :: r := List.drop_append_of_le_length hle
  simp only [strtod, head?_append_stop hc (show isStop 45 = false from rfl)]
  have hsign : (if w.head? = some 45 then [(45 : UInt8)] else []).length ≤ w.length := by
    cases w with
    | nil => simp
    | cons => split <;> simp
  rw [hdrop _ _ hsign]
  generalize w.drop (if w.head? = some 45 then [(45 : UInt8)] else []).length = v
  rw [digits_append_stop hc, hdrop _ _ (length_digits_le v)]
  generalize hv : v.drop (digits v).length = u
  simp only [head?_append_stop hc (show isStop 46 = false from rfl)]
  have hfrac : (if u.head? = some 46 then digits ((u ++ c :: r).drop 1) else []) =
      if u.head? = some 46 then digits (u.drop 1) else [] := by
    cases u with
    | nil => rfl
    | cons d u => simp [digits_append_stop hc]
  rw [hfrac, List.drop_append_of_le_length (length_fraction_le u), scanExponent_append_stop hc]

theorem unsigned_append_stop (hc : isStop c) (w r : Bytes) :
    unsigned (w ++ c :: r) = unsigned w ++ c :: r := by
  have hminus : c ≠ 45 := ne_of_isStop hc rfl
  cases w with
  | nil => simp [unsigned, hminus]
  | cons d w => by_cases hd : d = 45 <;> simp [unsigned, hd]

def isWord (s : Bytes) : Bool :=
  (bytes "INF").isPrefixOf ((s.take 3).map toupper) ||
    (bytes "NAN").isPrefixOf ((s.take 3).map toupper)

def isHexadecimal : Bytes → Bool
  | d :: x :: c :: rest =>
    d == 48 && (x == 120 || x == 88) && (isHexDigit c || (c == 46 && rest.head?.any isHexDigit))
  | _ => false

theorem isExotic_eq (s : Bytes) : isExotic s = (isWord s || isHexadecimal s) := by
  unfold isExotic isWord
  congr 1
  split
  · simp [isHexadecimal]
  · rename_i hhex
    rcases s with _ | ⟨d, _ | ⟨x, _ | ⟨c, rest⟩⟩⟩
    · rfl
    · rfl
    · rfl
    · have hd : d ≠ 48 := fun hd => hhex x c rest (by rw [hd])
      simp [isHexadecimal, hd]

theorem isWord_append_stop (hc : isStop c) (w r : Bytes) : isWord (w ++ c :: r) = isWord w := by
  have hI : 73 ≠ c := (ne_of_isStop hc rfl).symm
  have hN : 78 ≠ c := (ne_of_isStop hc rfl).symm
  have hF : 70 ≠ c := (ne_of_isStop hc rfl).symm
  have hA : 65 ≠ c := (ne_of_isStop hc rfl).symm
  have hupper := toupper_of_isStop hc
  rcases w with _ | ⟨d, _ | ⟨e, _ | ⟨f, w⟩⟩⟩
  · simp [isWord, bytes, List.isPrefixOf, hupper, hI, hN]
  · simp [isWord, bytes, List.isPrefixOf, hupper, hN, hA]
  · simp [isWord, bytes, List.isPrefixOf, hupper, hN, hF]
  · rfl

theorem isHexadecimal_append_stop (hc : isStop c) (w r : Bytes) :
    isHexadecimal (w ++ c :: r) = isHexadecimal w := by
  have hzero : c ≠ 48 := ne_of_isStop hc rfl
  have hx : c ≠ 120 ∧ c ≠ 88 := ⟨ne_of_isStop hc rfl, ne_of_isStop hc rfl⟩
  have hpoint : c ≠ 46 := ne_of_isStop hc rfl
  have hhex := isHexDigit_of_isStop hc
  rcases w with _ | ⟨d, _ | ⟨e, _ | ⟨f, w⟩⟩⟩
  · rcases r with _ | ⟨_, _ | ⟨_, r⟩⟩ <;> simp [isHexadecimal, hzero]
  · cases r <;> simp [isHexadecimal, hx]
  · simp [isHexadecimal, hhex, hpoint]
  · cases w <;> simp [isHexadecimal, hhex]

theorem isExotic_append_stop (hc : isStop c) (w r : Bytes) : isExotic (w ++ c :: r) = isExotic w := by
  rw [isExotic_eq, isExotic_eq, isWord_append_stop hc, isHexadecimal_append_stop hc]

theorem length_scanExponent_le (s : Bytes) : (scanExponent s).1.length ≤ s.length := by
  cases s with
  | nil => simp [scanExponent]
  | cons e rest =>
    simp only [scanExponent]
    split
    · generalize hsign : (if rest.head? = some 45 || rest.head? = some 43 then rest.take 1 else []) = sign
      have hle : sign.length ≤ rest.length := by
        rw [← hsign]
        split <;> simp
      have hdigits := length_digits_le (rest.drop sign.length)
      rw [List.length_drop] at hdigits
      split
      · simp
      · simp only [List.length_cons, List.length_append]
        omega
    · simp

theorem length_strtod_le (s : Bytes) : (strtod s).1.length ≤ s.length := by
  simp only [strtod]
  generalize hsign : (if s.head? = some 45 then [(45 : UInt8)] else []) = sign
  have hle : sign.length ≤ s.length := by
    rw [← hsign]
    cases s with
    | nil => simp
    | cons => split <;> simp
  generalize hv : s.drop sign.length = v
  have hint := length_digits_le v
  generalize hu : v.drop (digits v).length = u
  have hfrac := length_fraction_le u
  generalize (if u.head? = some 46 then [(46 : UInt8)] else []) = point at hfrac ⊢
  generalize (if u.head? = some 46 then digits (u.drop 1) else []) = frac at hfrac ⊢
  have hexp := length_scanExponent_le (u.drop (point.length + frac.length))
  have hvlen := congrArg List.length hv
  have hulen := congrArg List.length hu
  rw [List.length_drop] at hvlen hulen hexp
  split
  · simp
  · simp only [List.length_append]
    omega

theorem parseNumberValue_append_stop (hc : isStop c) (w r : Bytes) :
    parseNumberValue (w ++ c :: r) =
      (parseNumberValue w).map fun (v, left) => (v, left ++ c :: r) := by
  simp only [parseNumberValue, unsigned_append_stop hc, isExotic_append_stop hc, strtod_append_stop hc]
  split
  · rfl
  · split
    · simp [List.drop_append_of_le_length (length_strtod_le w)]
    · rfl

theorem number_of_parseNumberValue (h : parseNumberValue s = some (v, left)) : ∃ d, v = .number d := by
  simp only [parseNumberValue] at h
  split at h
  · contradiction
  · split at h
    · cases h
      exact ⟨_, rfl⟩
    · contradiction

theorem isNumberStart_of_isStop (hc : isStop c) : isNumberStart c = false := by
  have hminus : c ≠ 45 := ne_of_isStop hc rfl
  simp [isNumberStart, isdigit_of_isStop hc, hminus]

theorem parseNumberValue_takes (hc : isStop c) (h : parseNumberValue s = some (v, c :: left)) :
    ∃ w, s = w ++ c :: left ∧ ∀ d r, isStop d → parseNumberValue (w ++ d :: r) = some (v, d :: r) := by
  have hleft : c :: left = s.drop (strtod s).1.length := by
    simp only [parseNumberValue] at h
    split at h
    · contradiction
    · split at h
      · exact (congrArg Prod.snd (Option.some.inj h)).symm
      · contradiction
  have hs : s = s.take (strtod s).1.length ++ c :: left := by rw [hleft, List.take_append_drop]
  generalize s.take (strtod s).1.length = w at hs
  subst hs
  refine ⟨w, rfl, fun d r hd => ?_⟩
  rw [parseNumberValue_append_stop hc, Option.map_eq_some_iff] at h
  obtain ⟨⟨v', left'⟩, hw, heq⟩ := h
  obtain ⟨rfl, hnil⟩ := Prod.mk.inj heq
  have hnil : left' = [] := by simpa using hnil
  rw [parseNumberValue_append_stop hd, hw, hnil]
  rfl

-- ---------------------------------------------------------------------------
-- Members and items
-- ---------------------------------------------------------------------------

theorem isStop_of_parseNext (hclose : close = 93 ∨ close = 125) (h : parseNext close s = some next) :
    ∃ c r, s = c :: r ∧ isStop c := by
  cases s with
  | nil => contradiction
  | cons c r =>
    refine ⟨c, r, rfl, ?_⟩
    cases hspace : isspace c with
    | true => simp [isStop, hspace]
    | false =>
      unfold parseNext at h
      rw [skipWhitespaces_cons hspace] at h
      dsimp only at h
      split at h
      case isTrue hcomma =>
        rw [hcomma]
        rfl
      case isFalse =>
        split at h
        case isTrue hc =>
          rcases hclose with rfl | rfl <;> rw [hc] <;> rfl
        case isFalse => contradiction

theorem parseNext_stop_takes (h : parseNext close s = some (.stop left)) :
    ∃ w, w ≠ [] ∧ s = w ++ left ∧ ∀ t, parseNext close (w ++ t) = some (.stop t) := by
  unfold parseNext at h
  cases hskip : skipWhitespaces s with
  | nil => simp [hskip] at h
  | cons c rest =>
    obtain ⟨w, rfl, hskips⟩ := skipWhitespaces_takes hskip
    simp only [hskip] at h
    split at h
    case isTrue hcomma =>
      subst hcomma
      cases hskip' : skipWhitespaces rest with
      | nil => simp [hskip'] at h
      | cons d rest' =>
        obtain ⟨w', rfl, hskips'⟩ := skipWhitespaces_takes hskip'
        simp only [hskip'] at h
        split at h
        case isFalse => simp at h
        rename_i hd
        subst hd
        cases h
        refine ⟨w ++ 44 :: (w' ++ [d]), by simp, by simp, fun t => ?_⟩
        have htext : w ++ 44 :: (w' ++ [d]) ++ t = w ++ 44 :: (w' ++ d :: t) := by simp
        simp only [parseNext, htext, hskips (w' ++ d :: t), if_true, hskips' t]
    case isFalse hcomma =>
      split at h
      case isFalse => contradiction
      rename_i hc
      subst hc
      cases h
      refine ⟨w ++ [c], by simp, by simp, fun t => ?_⟩
      have htext : w ++ [c] ++ t = w ++ c :: t := by simp
      simp only [parseNext, htext, hskips t, hcomma, if_false, if_true]

theorem parseNext_more_takes (h : parseNext close s = some (.more left)) :
    ∃ w d rest, w ≠ [] ∧ left = d :: rest ∧ s = w ++ left ∧
      ∀ t, parseNext close (w ++ d :: t) = some (.more (d :: t)) := by
  unfold parseNext at h
  cases hskip : skipWhitespaces s with
  | nil => simp [hskip] at h
  | cons c rest =>
    obtain ⟨w, rfl, hskips⟩ := skipWhitespaces_takes hskip
    simp only [hskip] at h
    split at h
    case isFalse => split at h <;> simp at h
    rename_i hcomma
    subst hcomma
    cases hskip' : skipWhitespaces rest with
    | nil => simp [hskip'] at h
    | cons d rest' =>
      obtain ⟨w', rfl, hskips'⟩ := skipWhitespaces_takes hskip'
      simp only [hskip'] at h
      split at h
      case isTrue => simp at h
      rename_i hd
      cases h
      refine ⟨w ++ 44 :: w', d, rest', by simp, rfl, by simp, fun t => ?_⟩
      have htext : w ++ 44 :: w' ++ d :: t = w ++ 44 :: (w' ++ d :: t) := by simp
      simp only [parseNext, htext, hskips (w' ++ d :: t), if_true, hskips' t, hd, if_false]

-- ---------------------------------------------------------------------------
-- Values
-- ---------------------------------------------------------------------------

theorem parseStringValue_takes (h : parseStringValue s = some (v, left)) :
    ∃ w, s = w ++ left ∧ Takes parseStringValue w v := by
  obtain ⟨⟨chars, left'⟩, hquoted, heq⟩ := Option.map_eq_some_iff.mp h
  cases heq
  obtain ⟨w, rfl, htakes⟩ := getQuotedString_takes hquoted
  refine ⟨w, rfl, fun t => ?_⟩
  simp [parseStringValue, htakes t]

theorem Takes.cons (htakes : Takes f w a) (hnil : f [] = none) : ∃ c w', w = c :: w' := by
  refine List.exists_cons_of_ne_nil ?_
  rintro rfl
  have hempty : f [] = some (a, []) := htakes []
  rw [hnil] at hempty
  contradiction

def Stops (v : Value) (t : Bytes) : Prop := ∀ d, v = .number d → ∃ c r, t = c :: r ∧ isStop c

theorem stops_of_parseNext (hclose : close = 93 ∨ close = 125) (h : parseNext close s = some next)
    (v : Value) : Stops v s := fun _ _ => isStop_of_parseNext hclose h

theorem stops_append (hs : Stops v (w ++ left)) (hw : w ≠ []) (t : Bytes) : Stops v (w ++ t) := by
  intro d hd
  obtain ⟨c, r, hc, hstop⟩ := hs d hd
  obtain ⟨a, w, rfl⟩ := List.exists_cons_of_ne_nil hw
  cases hc
  exact ⟨_, _, rfl, hstop⟩

def TakesValue (fuel nesting : Nat) (w : Bytes) (v : Value) : Prop :=
  ∀ t, Stops v t → parseValue fuel nesting (w ++ t) = some (v, t)

section Step

variable {fuel : Nat}

theorem parseMembers_takes
    (ihValue : ∀ n s v left, parseValue fuel n s = some (v, left) → Stops v left →
      ∃ w, s = w ++ left ∧ TakesValue fuel n w v)
    (ihMembers : ∀ n acc s v left, parseMembers fuel n acc s = some (v, left) →
      ∃ w, w ≠ [] ∧ s = w ++ left ∧ Takes (parseMembers fuel n acc) w v)
    (h : parseMembers (fuel + 1) n acc s = some (v, left)) :
    ∃ w, w ≠ [] ∧ s = w ++ left ∧ Takes (parseMembers (fuel + 1) n acc) w v := by
  unfold parseMembers at h
  cases hname : parseName s with
  | none => simp [hname] at h
  | some r =>
    obtain ⟨name, left₁⟩ := r
    obtain ⟨w₁, rfl, htakes₁⟩ := parseName_takes hname
    simp only [hname] at h
    cases hvalue : parseValue fuel n left₁ with
    | none => simp [hvalue] at h
    | some r =>
      obtain ⟨v₁, left₂⟩ := r
      simp only [hvalue] at h
      split at h
      case isTrue => contradiction
      rename_i hnew
      cases hnext : parseNext 125 left₂ with
      | none => simp [hnext] at h
      | some next =>
        have hstops := stops_of_parseNext (.inr rfl) hnext v₁
        obtain ⟨w₂, rfl, htakes₂⟩ := ihValue _ _ _ _ hvalue hstops
        simp only [hnext] at h
        cases next with
        | stop left₃ =>
          cases h
          obtain ⟨w₃, hne, rfl, htakes₃⟩ := parseNext_stop_takes hnext
          refine ⟨w₁ ++ (w₂ ++ w₃), by simp [hne], by simp, fun t => ?_⟩
          have hvalue' := htakes₂ (w₃ ++ t) (stops_append hstops hne t)
          simp only [parseMembers, List.append_assoc, htakes₁ (w₂ ++ (w₃ ++ t)), hvalue', hnew,
            htakes₃ t]
          rfl
        | more left₃ =>
          obtain ⟨w₃, d, rest, hne, rfl, rfl, htakes₃⟩ := parseNext_more_takes hnext
          obtain ⟨w₄, hne₄, hleft, htakes₄⟩ := ihMembers _ _ _ _ _ h
          obtain ⟨d', w₄, rfl⟩ := List.exists_cons_of_ne_nil hne₄
          obtain ⟨rfl, rfl⟩ := List.cons.inj hleft
          refine ⟨w₁ ++ (w₂ ++ (w₃ ++ d :: w₄)), by simp [hne], by simp, fun t => ?_⟩
          have hvalue' := htakes₂ (w₃ ++ (d :: w₄ ++ t)) (stops_append hstops hne _)
          have hrest := htakes₄ t
          simp only [parseMembers, List.append_assoc, htakes₁ (w₂ ++ (w₃ ++ (d :: w₄ ++ t))),
            hvalue', hnew]
          rw [List.cons_append] at hrest ⊢
          simp only [htakes₃ (w₄ ++ t), hrest]
          rfl

theorem parseItems_takes
    (ihValue : ∀ n s v left, parseValue fuel n s = some (v, left) → Stops v left →
      ∃ w, s = w ++ left ∧ TakesValue fuel n w v)
    (ihItems : ∀ n acc s v left, parseItems fuel n acc s = some (v, left) →
      ∃ w, w ≠ [] ∧ s = w ++ left ∧ Takes (parseItems fuel n acc) w v)
    (h : parseItems (fuel + 1) n acc s = some (v, left)) :
    ∃ w, w ≠ [] ∧ s = w ++ left ∧ Takes (parseItems (fuel + 1) n acc) w v := by
  unfold parseItems at h
  cases hvalue : parseValue fuel n s with
  | none => simp [hvalue] at h
  | some r =>
    obtain ⟨v₁, left₁⟩ := r
    simp only [hvalue] at h
    cases hnext : parseNext 93 left₁ with
    | none => simp [hnext] at h
    | some next =>
      have hstops := stops_of_parseNext (.inl rfl) hnext v₁
      obtain ⟨w₁, rfl, htakes₁⟩ := ihValue _ _ _ _ hvalue hstops
      simp only [hnext] at h
      cases next with
      | stop left₂ =>
        cases h
        obtain ⟨w₂, hne, rfl, htakes₂⟩ := parseNext_stop_takes hnext
        refine ⟨w₁ ++ w₂, by simp [hne], by simp, fun t => ?_⟩
        have hvalue' := htakes₁ (w₂ ++ t) (stops_append hstops hne t)
        simp only [parseItems, List.append_assoc, hvalue', htakes₂ t]
      | more left₂ =>
        obtain ⟨w₂, d, rest, hne, rfl, rfl, htakes₂⟩ := parseNext_more_takes hnext
        obtain ⟨w₃, hne₃, hleft, htakes₃⟩ := ihItems _ _ _ _ _ h
        obtain ⟨d', w₃, rfl⟩ := List.exists_cons_of_ne_nil hne₃
        obtain ⟨rfl, rfl⟩ := List.cons.inj hleft
        refine ⟨w₁ ++ (w₂ ++ d :: w₃), by simp [hne], by simp, fun t => ?_⟩
        have hvalue' := htakes₁ (w₂ ++ (d :: w₃ ++ t)) (stops_append hstops hne _)
        have hrest := htakes₃ t
        simp only [parseItems, List.append_assoc, hvalue']
        rw [List.cons_append] at hrest ⊢
        simp only [htakes₂ (w₃ ++ t), hrest]

theorem parseOpened_takes {parseMore : Bytes → Option (Value × Bytes)}
    (hmore : ∀ s v left, parseMore s = some (v, left) →
      ∃ w, w ≠ [] ∧ s = w ++ left ∧ Takes parseMore w v)
    (h : parseOpened close empty parseMore s = some (v, left)) :
    ∃ w, s = w ++ left ∧ Takes (parseOpened close empty parseMore) w v := by
  unfold parseOpened at h
  cases hskip : skipWhitespaces s with
  | nil => simp [hskip] at h
  | cons d rest =>
    obtain ⟨w, rfl, hskips⟩ := skipWhitespaces_takes hskip
    simp only [hskip] at h
    split at h
    case isTrue hclose =>
      cases h
      refine ⟨w ++ [d], by simp, fun t => ?_⟩
      have htext : w ++ [d] ++ t = w ++ d :: t := by simp
      simp only [parseOpened, htext, hskips t, if_pos hclose]
    case isFalse hclose =>
      obtain ⟨w₁, hne, hleft, htakes⟩ := hmore _ _ _ h
      obtain ⟨d', w₁, rfl⟩ := List.exists_cons_of_ne_nil hne
      obtain ⟨rfl, rfl⟩ := List.cons.inj hleft
      refine ⟨w ++ d :: w₁, by simp, fun t => ?_⟩
      have htext : w ++ d :: w₁ ++ t = w ++ d :: (w₁ ++ t) := by simp
      have hrest := htakes t
      rw [List.cons_append] at hrest
      simp only [parseOpened, htext, hskips (w₁ ++ t), if_neg hclose, hrest]

theorem takes_tail {f : Bytes → Option (Value × Bytes)} (hnil : f [] = none)
    (h : ∃ w, c :: rest = w ++ left ∧ Takes f w v) :
    ∃ w, rest = w ++ left ∧ ∀ t, f (c :: (w ++ t)) = some (v, t) := by
  obtain ⟨w, hleft, htakes⟩ := h
  obtain ⟨c', w, rfl⟩ := htakes.cons hnil
  obtain ⟨rfl, rfl⟩ := List.cons.inj hleft
  exact ⟨w, rfl, htakes⟩

theorem parseScalar_takes (hstops : Stops v left) (h : parseScalar c rest = some (v, left)) :
    ∃ w, rest = w ++ left ∧ ∀ t, Stops v t → parseScalar c (w ++ t) = some (v, t) := by
  unfold parseScalar at h
  split at h
  case isTrue hquote =>
    obtain ⟨w, rfl, htakes⟩ := takes_tail rfl (parseStringValue_takes h)
    exact ⟨w, rfl, fun t _ => by rw [parseScalar, if_pos hquote, htakes]⟩
  case isFalse hquote =>
  split at h
  case isTrue hbool =>
    obtain ⟨w, rfl, htakes⟩ := takes_tail rfl (parseBooleanValue_takes h)
    exact ⟨w, rfl, fun t _ => by rw [parseScalar, if_neg hquote, if_pos hbool, htakes]⟩
  case isFalse hbool =>
  split at h
  case isTrue hnumber =>
    obtain ⟨d, rfl⟩ := number_of_parseNumberValue h
    obtain ⟨e, r, rfl, hstop⟩ := hstops d rfl
    obtain ⟨w, hleft, htakes⟩ := parseNumberValue_takes hstop h
    cases w with
    | nil =>
      obtain ⟨rfl, -⟩ := List.cons.inj hleft
      exact absurd hnumber (by simp [isNumberStart_of_isStop hstop])
    | cons c' w =>
      obtain ⟨rfl, rfl⟩ := List.cons.inj hleft
      refine ⟨w, rfl, fun t ht => ?_⟩
      obtain ⟨f, u, rfl, hf⟩ := ht d rfl
      rw [parseScalar, if_neg hquote, if_neg hbool, if_pos hnumber]
      exact htakes f u hf
  case isFalse hnumber =>
  split at h
  case isTrue hnull =>
    obtain ⟨w, rfl, htakes⟩ := takes_tail rfl (parseLiteral_takes h)
    refine ⟨w, rfl, fun t _ => ?_⟩
    rw [parseScalar, if_neg hquote, if_neg hbool, if_neg hnumber, if_pos hnull, htakes]
  case isFalse => contradiction

theorem parseValue_takes
    (ihMembers : ∀ n acc s v left, parseMembers fuel n acc s = some (v, left) →
      ∃ w, w ≠ [] ∧ s = w ++ left ∧ Takes (parseMembers fuel n acc) w v)
    (ihItems : ∀ n acc s v left, parseItems fuel n acc s = some (v, left) →
      ∃ w, w ≠ [] ∧ s = w ++ left ∧ Takes (parseItems fuel n acc) w v)
    (h : parseValue (fuel + 1) n s = some (v, left)) (hstops : Stops v left) :
    ∃ w, s = w ++ left ∧ TakesValue (fuel + 1) n w v := by
  obtain ⟨hn, c, rest, hskip, hreads⟩ := parseValue_cases h
  obtain ⟨w, rfl, hskips⟩ := skipWhitespaces_takes hskip
  have htext : ∀ w₁ t, w ++ c :: w₁ ++ t = w ++ c :: (w₁ ++ t) := fun w₁ t => by simp
  cases hreads with
  | object hopened =>
    obtain ⟨w₁, rfl, htakes⟩ := parseOpened_takes (ihMembers _ _) hopened
    refine ⟨w ++ 123 :: w₁, by simp, fun t _ => ?_⟩
    rw [htext, parseValue_object hn (hskips (w₁ ++ t))]
    exact htakes t
  | array hopened =>
    obtain ⟨w₁, rfl, htakes⟩ := parseOpened_takes (ihItems _ _) hopened
    refine ⟨w ++ 91 :: w₁, by simp, fun t _ => ?_⟩
    rw [htext, parseValue_array hn (hskips (w₁ ++ t))]
    exact htakes t
  | scalar hobject harray hscalar =>
    obtain ⟨w₁, rfl, htakes⟩ := parseScalar_takes hstops hscalar
    refine ⟨w ++ c :: w₁, by simp, fun t ht => ?_⟩
    rw [htext, parseValue_scalar hn (hskips (w₁ ++ t)) hobject harray]
    exact htakes t ht

end Step

theorem parse_takes (fuel : Nat) :
    (∀ n s v left, parseValue fuel n s = some (v, left) → Stops v left →
      ∃ w, s = w ++ left ∧ TakesValue fuel n w v) ∧
    (∀ n acc s v left, parseMembers fuel n acc s = some (v, left) →
      ∃ w, w ≠ [] ∧ s = w ++ left ∧ Takes (parseMembers fuel n acc) w v) ∧
    (∀ n acc s v left, parseItems fuel n acc s = some (v, left) →
      ∃ w, w ≠ [] ∧ s = w ++ left ∧ Takes (parseItems fuel n acc) w v) := by
  induction fuel with
  | zero => simp [parseValue, parseMembers, parseItems]
  | succ fuel ih =>
    obtain ⟨ihValue, ihMembers, ihItems⟩ := ih
    exact ⟨fun _ _ _ _ => parseValue_takes ihMembers ihItems,
      fun _ _ _ _ _ => parseMembers_takes ihValue ihMembers,
      fun _ _ _ _ _ => parseItems_takes ihValue ihItems⟩

-- ---------------------------------------------------------------------------
-- Texts
-- ---------------------------------------------------------------------------

theorem parseText_takes (h : parseText s = some (v, left)) (hv : ∀ d, v ≠ .number d) :
    ∃ w, s = w ++ left ∧ Takes parseText w v := by
  have hstops (t : Bytes) : Stops v t := fun d hd => absurd hd (hv d)
  obtain ⟨w, rfl, -⟩ := (parse_takes _).1 _ _ _ _ h (hstops left)
  refine ⟨w, rfl, fun t => ?_⟩
  have hfuel : 2 * (w ++ left).length < 2 * (w ++ left).length + 2 * (w ++ t).length + 1 := by omega
  have hread := (parseValue_fuel 0 hfuel).trans h
  obtain ⟨w', heq, htakes⟩ := (parse_takes _).1 _ _ _ _ hread (hstops left)
  rw [← List.append_cancel_right heq] at htakes
  have hfuel' : 2 * (w ++ t).length < 2 * (w ++ left).length + 2 * (w ++ t).length + 1 := by omega
  exact (parseValue_fuel 0 hfuel').symm.trans (htakes t (hstops t))

/-- The value at the head of a text, and what follows it. -/
def jsonParse (s : Bytes) : Option (Value × Bytes) :=
  parseText (if [0xEF, 0xBB, 0xBF].isPrefixOf s then s.drop 3 else s)

theorem jsonParseString_eq (s : Bytes) : jsonParseString s = (jsonParse s).map (·.1) := rfl

theorem parseText_byteOrderMark (s : Bytes) : parseText (0xEF :: s) = none := by
  simp [parseText, parseValue, skipWhitespaces_cons (show isspace 0xEF = false from rfl), isNumberStart,
    isdigit]

theorem jsonParse_takes (h : jsonParse s = some (v, left)) (hv : ∀ d, v ≠ .number d) :
    ∃ w, s = w ++ left ∧ Takes jsonParse w v := by
  unfold jsonParse at h
  split at h
  case isTrue hmark =>
    obtain ⟨rest, rfl⟩ := List.isPrefixOf_iff_prefix.mp hmark
    obtain ⟨w, heq, htakes⟩ := parseText_takes h hv
    have hrest : rest = w ++ left := heq
    subst hrest
    refine ⟨[0xEF, 0xBB, 0xBF] ++ w, rfl, fun t => ?_⟩
    have hmark' : [0xEF, 0xBB, 0xBF].isPrefixOf ([0xEF, 0xBB, 0xBF] ++ w ++ t) := rfl
    rw [jsonParse, if_pos hmark']
    exact htakes t
  case isFalse hmark =>
    obtain ⟨w, rfl, htakes⟩ := parseText_takes h hv
    refine ⟨w, rfl, fun t => ?_⟩
    have hread := htakes t
    have hmark' : [0xEF, 0xBB, 0xBF].isPrefixOf (w ++ t) = false := by
      by_contra hmark'
      rw [Bool.not_eq_false, List.isPrefixOf_iff_prefix] at hmark'
      obtain ⟨rest, hrest⟩ := hmark'
      rw [← hrest] at hread
      exact absurd (hread.symm.trans (parseText_byteOrderMark _)) (by simp)
    rw [jsonParse, hmark', if_neg Bool.false_ne_true, hread]

theorem jsonParse_take_ne (hwhole : jsonParse w = some (v, [])) (hlt : n < w.length) :
    jsonParse (w.take n) ≠ some (.object members, left) := by
  intro h
  obtain ⟨w', heq, htakes'⟩ := jsonParse_takes h fun d => by simp
  have hsplit : w' ++ (left ++ w.drop n) = w := by
    rw [← List.append_assoc, ← heq, List.take_append_drop]
  have hcut := htakes' (left ++ w.drop n)
  rw [hsplit, hwhole] at hcut
  have hnil : [] = left ++ w.drop n := congrArg Prod.snd (Option.some.inj hcut)
  have hlen := congrArg List.length hnil
  simp at hlen
  omega

end GeoNS.Parson
