import GeoNS.CString

/-!
# Lexing SQL text

SQLite's lexical rules for words, numbers, text literals, comments and
single-character symbols, as a machine over the bytes of the statement: a
text literal ends at its first unpaired quote, and a paired quote stands for
one quote of the value. Quoted identifiers, real numbers and the
two-character operators are left to the symbols they are made of.
-/

namespace SqlLexer

open CString (Bytes isspace isdigit)

inductive Token
  | word (w : Bytes)
  | number (ds : Bytes)
  | text (value : Bytes)
  | symbol (c : UInt8)
  | illegal
  deriving DecidableEq, Repr

/-- What the lexer is in the middle of; `quote` is a literal at whose last
quote it is not yet known whether another one follows. -/
inductive Mode
  | start
  | word (w : Bytes)
  | number (ds : Bytes)
  | text (value : Bytes)
  | quote (value : Bytes)
  | dash
  | lineComment
  | slash
  | blockComment
  | blockStar
  deriving DecidableEq, Repr

def isIdChar (c : UInt8) : Bool :=
  (65 ≤ c && c ≤ 90) || (97 ≤ c && c ≤ 122) || isdigit c || c == 95 || c == 36 || 128 ≤ c

def fromStart (c : UInt8) : Mode × List Token :=
  if isspace c then (.start, [])
  else if c = 39 then (.text [], [])
  else if isdigit c then (.number [c], [])
  else if isIdChar c then (.word [c], [])
  else if c = 45 then (.dash, [])
  else if c = 47 then (.slash, [])
  else (.start, [.symbol c])

def emit (t : Token) (r : Mode × List Token) : Mode × List Token := (r.1, t :: r.2)

def step : Mode → UInt8 → Mode × List Token
  | .start, c => fromStart c
  | .word w, c => if isIdChar c then (.word (w ++ [c]), []) else emit (.word w) (fromStart c)
  | .number ds, c =>
    if isdigit c then (.number (ds ++ [c]), [])
    else if isIdChar c then emit .illegal (.word [c], [])
    else emit (.number ds) (fromStart c)
  | .text v, c => if c = 39 then (.quote v, []) else (.text (v ++ [c]), [])
  | .quote v, c => if c = 39 then (.text (v ++ [39]), []) else emit (.text v) (fromStart c)
  | .dash, c => if c = 45 then (.lineComment, []) else emit (.symbol 45) (fromStart c)
  | .lineComment, c => if c = 10 then (.start, []) else (.lineComment, [])
  | .slash, c => if c = 42 then (.blockComment, []) else emit (.symbol 47) (fromStart c)
  | .blockComment, c => if c = 42 then (.blockStar, []) else (.blockComment, [])
  | .blockStar, c =>
    if c = 47 then (.start, []) else if c = 42 then (.blockStar, []) else (.blockComment, [])

def finish : Mode → List Token
  | .word w => [.word w]
  | .number ds => [.number ds]
  | .text _ => [.illegal]
  | .quote v => [.text v]
  | .dash => [.symbol 45]
  | .slash => [.symbol 47]
  | .start | .lineComment | .blockComment | .blockStar => []

def lexFrom (m : Mode) : Bytes → List Token
  | [] => finish m
  | c :: cs => (step m c).2 ++ lexFrom (step m c).1 cs

def lex (s : Bytes) : List Token := lexFrom .start s

/-- The tokens complete after `s`, and what the lexer is then in the middle of. -/
def advance (m : Mode) : Bytes → Mode × List Token
  | [] => (m, [])
  | c :: cs => ((advance (step m c).1 cs).1, (step m c).2 ++ (advance (step m c).1 cs).2)

theorem lexFrom_append (m : Mode) (s t : Bytes) :
    lexFrom m (s ++ t) = (advance m s).2 ++ lexFrom (advance m s).1 t := by
  induction s generalizing m with
  | nil => rfl
  | cons c cs ih => simp [lexFrom, advance, ih]

theorem lexFrom_of_advance (h : advance m s = (m', ts)) (t : Bytes) :
    lexFrom m (s ++ t) = ts ++ lexFrom m' t := by
  rw [lexFrom_append, h]

-- ---------------------------------------------------------------------------
-- Numbers
-- ---------------------------------------------------------------------------

theorem lexFrom_number (h : ∀ c ∈ ds, isdigit c) (acc t : Bytes) :
    lexFrom (.number acc) (ds ++ t) = lexFrom (.number (acc ++ ds)) t := by
  induction ds generalizing acc with
  | nil => simp
  | cons d ds ih =>
    obtain ⟨hd, hds⟩ := List.forall_mem_cons.mp h
    simpa [lexFrom, step, hd] using ih hds (acc ++ [d])

theorem lexFrom_digits (hne : ds ≠ []) (h : ∀ c ∈ ds, isdigit c) (t : Bytes) :
    lexFrom .start (ds ++ t) = lexFrom (.number ds) t := by
  cases ds with
  | nil => contradiction
  | cons d ds =>
    obtain ⟨hd, hds⟩ := List.forall_mem_cons.mp h
    have hstart : fromStart d = (.number [d], []) := by
      have h0 : isspace d = false := by
        revert hd
        simp only [isspace, isdigit, UInt8.le_iff_toNat_le, Bool.and_eq_true, decide_eq_true_eq]
        intro hd
        have h48 : (48 : UInt8).toNat = 48 := rfl
        have h13 : (13 : UInt8).toNat = 13 := rfl
        have h32 : d ≠ 32 := by rintro rfl; simp at hd
        simp [h32]
        omega
      have h39 : d ≠ 39 := by rintro rfl; simp [isdigit] at hd
      simp [fromStart, h0, h39, hd]
    simpa [lexFrom, step, hstart] using lexFrom_number hds [d] t

/-- A number ends at the first byte no identifier may hold. -/
theorem lexFrom_number_end (hne : ds ≠ []) (h : ∀ c ∈ ds, isdigit c) (hc : isIdChar c = false)
    (t : Bytes) :
    lexFrom .start (ds ++ c :: t) = .number ds :: lexFrom .start (c :: t) := by
  have hd : isdigit c = false := by
    simp only [isIdChar, Bool.or_eq_false_iff] at hc
    exact hc.1.1.1.2
  rw [lexFrom_digits hne h]
  simp [lexFrom, step, hd, hc, emit]

-- ---------------------------------------------------------------------------
-- Text literals
-- ---------------------------------------------------------------------------

theorem lexFrom_text (h : (39 : UInt8) ∉ s) (acc t : Bytes) :
    lexFrom (.text acc) (s ++ t) = lexFrom (.text (acc ++ s)) t := by
  induction s generalizing acc with
  | nil => simp
  | cons c cs ih =>
    obtain ⟨hc, hcs⟩ := List.ne_and_not_mem_of_not_mem_cons h
    simpa [lexFrom, step, Ne.symm hc] using ih hcs (acc ++ [c])

/-- After a literal's last quote, any other byte starts the next token. -/
theorem lexFrom_quote (hc : c ≠ 39) (v t : Bytes) :
    lexFrom (.quote v) (c :: t) = .text v :: lexFrom .start (c :: t) := by
  simp [lexFrom, step, hc, emit]

def paired (v : Bytes) : Bytes := v.flatMap fun c => if c = 39 then [39, 39] else [c]

@[simp] theorem paired_nil : paired [] = [] := rfl
@[simp] theorem paired_quote (v : Bytes) : paired (39 :: v) = 39 :: 39 :: paired v := rfl

theorem paired_cons (hc : c ≠ 39) (v : Bytes) : paired (c :: v) = c :: paired v := by
  simp [paired, hc]

/-- How the lexer reads the rest of a literal: either it never ends, or the
text up to its unpaired quote is the paired form of the value it yields. -/
theorem lexFrom_text_cases (acc : Bytes) : (s : Bytes) →
    lexFrom (.text acc) s = [.illegal] ∨
      ∃ v t, s = paired v ++ 39 :: t ∧ lexFrom (.text acc) s = .text (acc ++ v) :: lexFrom .start t
  | [] => .inl rfl
  | c :: cs => by
    by_cases hc : c = 39
    · subst hc
      match cs with
      | [] => exact .inr ⟨[], [], rfl, by simp [lexFrom, step, finish]⟩
      | d :: ds =>
        by_cases hd : d = 39
        · subst hd
          rcases lexFrom_text_cases (acc ++ [39]) ds with h | ⟨v, t, rfl, h⟩
          · exact .inl (by simpa [lexFrom, step] using h)
          · exact .inr ⟨39 :: v, t, rfl, by simpa [lexFrom, step] using h⟩
        · refine .inr ⟨[], d :: ds, rfl, ?_⟩
          simpa [lexFrom, step] using lexFrom_quote hd acc ds
    · rcases lexFrom_text_cases (acc ++ [c]) cs with h | ⟨v, t, rfl, h⟩
      · exact .inl (by simpa [lexFrom, step, hc] using h)
      · exact .inr ⟨c :: v, t, by simp [paired_cons hc], by simpa [lexFrom, step, hc] using h⟩

/-- Pairing the quotes of `s` only adds quotes, so `s` and a closing quote
cannot be read as that many quotes more. -/
theorem ne_quotes_paired (ht : t.head? ≠ some 39) (n : Nat) (s r : Bytes) :
    s ++ 39 :: t ≠ List.replicate (n + 1) 39 ++ paired s ++ 39 :: r := by
  induction s generalizing n with
  | nil =>
    intro h
    simp only [List.nil_append, List.replicate_succ, List.cons_append, List.cons.injEq, paired_nil,
      List.append_nil, true_and] at h
    cases n <;> simp [h, List.replicate_succ] at ht
  | cons c cs ih =>
    intro h
    rw [List.replicate_succ, List.cons_append, List.cons_append, List.cons_append] at h
    obtain ⟨rfl, h⟩ := List.cons.inj h
    refine ih (n + 1) ?_
    rw [h, paired_quote, List.replicate_succ' (n := n + 1), List.replicate_succ' (n := n)]
    simp

theorem quote_notMem_of_paired (ht : t.head? ≠ some 39) (h : s ++ 39 :: t = paired s ++ 39 :: r) :
    (39 : UInt8) ∉ s := by
  induction s with
  | nil => simp
  | cons c cs ih =>
    by_cases hc : c = 39
    · subst hc
      rw [paired_quote, List.cons_append, List.cons_append, List.cons.injEq] at h
      exact absurd h.2 (by simpa using ne_quotes_paired ht 0 cs r)
    · rw [paired_cons hc, List.cons_append, List.cons_append, List.cons.injEq] at h
      simpa [Ne.symm hc] using ih h.2

/-- A literal written without pairing anything reads back as what was written
exactly when that has no quote. -/
theorem literal_iff (ht : t.head? ≠ some 39) :
    (∃ ts, lexFrom (.text []) (s ++ 39 :: t) = .text s :: ts) ↔ (39 : UInt8) ∉ s := by
  constructor
  · rintro ⟨ts, h⟩
    rcases lexFrom_text_cases [] (s ++ 39 :: t) with hbad | ⟨v, r, hs, hv⟩
    · simp [hbad] at h
    · rw [hv, List.nil_append, List.cons.injEq, Token.text.injEq] at h
      obtain ⟨rfl, -⟩ := h
      exact quote_notMem_of_paired ht hs
  · intro h
    rw [lexFrom_text h]
    cases t with
    | nil => exact ⟨[], by simp [lexFrom, step, finish]⟩
    | cons c t =>
      have hc : c ≠ 39 := by simpa using ht
      exact ⟨_, by simpa [lexFrom, step] using lexFrom_quote hc s t⟩

/-- The same for a literal inside a statement, `pre` being what is written
before its value. -/
theorem lexFrom_literal_iff (hpre : advance .start pre = (.text [], ts)) (hc : c ≠ 39)
    (hrest : lexFrom .start (c :: t) = us) :
    lex (pre ++ (s ++ 39 :: c :: t)) = ts ++ .text s :: us ↔ (39 : UInt8) ∉ s := by
  have ht : (c :: t).head? ≠ some 39 := by simpa using hc
  rw [lex, lexFrom_of_advance hpre, List.append_cancel_left_eq]
  constructor
  · intro h
    exact (literal_iff ht).mp ⟨us, h⟩
  · intro h
    rw [lexFrom_text h, ← hrest]
    simpa [lexFrom, step] using lexFrom_quote hc s t

end SqlLexer
