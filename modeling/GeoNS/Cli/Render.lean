import GeoNS.Cli.InPlace

/-!
# Command lines

What a user means by a command line, and its text. The parser reads from the text
what was meant.
-/

namespace GeoNS.Cli

open CString Lockstep

-- ---------------------------------------------------------------------------
-- Numbers
-- ---------------------------------------------------------------------------

def decInt (n : Int) : Bytes := if n < 0 then 45 :: dec n.natAbs else dec n.natAbs

theorem digitValue_of_isdigit (h : isdigit c) : digitValue c = c.toNat - 48 := if_pos h

theorem digitValue_lt (h : isdigit c) : digitValue c < 10 := by
  have hbounds := h
  simp only [isdigit, Bool.and_eq_true, decide_eq_true_eq, UInt8.le_iff_toNat_le] at hbounds
  have : c.toNat ≤ 57 := hbounds.2
  rw [digitValue_of_isdigit h]
  omega

/-- A decimal number begins with no digit that `strtol` would find another base by,
or it is 0. -/
theorem scanBase_dec (n : Nat) : ∃ base, scanBase (dec n) = (base, dec n) ∧
    (dec n).takeWhile (digitValue · < base) = dec n ∧
    (dec n).foldl (fun m c => (base : Int) * m + digitValue c) 0 = n := by
  rcases Nat.eq_zero_or_pos n with rfl | hn
  · exact ⟨8, by decide⟩
  · obtain ⟨d, ds, hdec, hd⟩ := exists_dec_eq_cons hn
    have hbase : scanBase (dec n) = (10, dec n) := by
      rw [hdec]
      unfold scanBase
      split <;> simp_all
    refine ⟨10, hbase, ?_, ?_⟩
    · refine List.takeWhile_eq_self_iff.mpr fun c hc => ?_
      simpa using digitValue_lt (isdigit_of_mem_dec hc)
    · have hfold (ds : Bytes) (hds : ∀ c ∈ ds, isdigit c) (acc : Nat) :
          ds.foldl (fun m c => (10 : Int) * m + digitValue c) (acc : Int) =
            (ds.foldl (fun m c => 10 * m + (c.toNat - 48)) acc : Nat) := by
        induction ds generalizing acc with
        | nil => rfl
        | cons c ds ih =>
          have hc := digitValue_of_isdigit (hds c List.mem_cons_self)
          have ih := ih (fun c h => hds c (List.mem_cons_of_mem _ h)) (10 * acc + (c.toNat - 48))
          simpa [hc] using ih
      calc (dec n).foldl (fun m c => ((10 : Nat) : Int) * m + digitValue c) 0
        _ = (decVal (dec n) : Int) := hfold (dec n) (fun _ => isdigit_of_mem_dec) 0
        _ = n := by rw [decVal_dec]

theorem strtol_dec (h : m < 2 ^ 63) : strtol (dec m) = ((m : Int), [], false) := by
  obtain ⟨base, hbase, htake, hfold⟩ := scanBase_dec m
  obtain ⟨d, ds, hdec⟩ := List.exists_cons_of_ne_nil (dec_ne_nil m)
  have hd : isdigit d := isdigit_of_mem_dec (hdec ▸ List.mem_cons_self)
  have hminus : d ≠ 45 := by
    rintro rfl
    exact absurd hd (by decide)
  have hplus : d ≠ 43 := by
    rintro rfl
    exact absurd hd (by decide)
  have hspace : (dec m).dropWhile isspace = dec m := by
    rw [hdec, List.dropWhile_cons_of_neg (by simp [isspace_of_isdigit hd])]
  have hhead : (dec m).head? = some d := by rw [hdec]; rfl
  have hsign : ((dec m).head? == some 45) = false ∧ ((dec m).head? == some 43) = false := by
    simp [hhead, hminus, hplus]
  have hmin : min (m : Int) (2 ^ 63 - 1) = m := by omega
  unfold strtol
  simp only [hspace, hsign, Bool.or_self, Bool.false_eq_true, if_false, hbase, htake, hfold, dec_ne_nil,
    List.drop_length, hmin]
  simp
  omega

theorem strtol_neg_dec (h : m ≤ 2 ^ 63) : strtol (45 :: dec m) = (-(m : Int), [], false) := by
  obtain ⟨base, hbase, htake, hfold⟩ := scanBase_dec m
  have hspace : (45 :: dec m).dropWhile isspace = 45 :: dec m := List.dropWhile_cons_of_neg (by decide)
  have hmax : max (-(m : Int)) (-2 ^ 63) = -m := by omega
  unfold strtol
  simp only [hspace, List.head?_cons, beq_self_eq_true, Bool.true_or, if_true, List.tail_cons, hbase, htake, hfold,
    dec_ne_nil, if_false, List.drop_length, hmax]
  simp
  omega

theorem strtol_decInt (h : -2 ^ 63 ≤ n) (h' : n < 2 ^ 63) : strtol (decInt n) = (n, [], false) := by
  by_cases hn : n < 0
  · have hneg := strtol_neg_dec (show n.natAbs ≤ 2 ^ 63 by omega)
    rw [decInt, if_pos hn, hneg, show -(n.natAbs : Int) = n by omega]
  · have hpos := strtol_dec (show n.natAbs < 2 ^ 63 by omega)
    rw [decInt, if_neg hn, hpos, show (n.natAbs : Int) = n by omega]

-- ---------------------------------------------------------------------------
-- Values
-- ---------------------------------------------------------------------------

inductive Value
  | text (s : Bytes)
  | number (n : Int)

def Value.bytes : Value → Bytes
  | .text s => s
  | .number n => decInt n

def Value.Fits (opt : ArgparseOption) : Value → Prop
  | .text _ => opt.type = .string
  | .number n => opt.type = .integer ∧ -2 ^ 31 ≤ n ∧ n < 2 ^ 31

def Values.assign (values : Values) (cell : Nat) : Value → Values
  | .text s => values.setString cell s
  | .number n => values.setInt cell n

/-- An option that takes no value, and has no callback. -/
def ArgparseOption.IsFlag (opt : ArgparseOption) : Prop :=
  (opt.type = .boolean ∨ opt.type = .bit) ∧ opt.callback = none

/-- A flag counts how often it is set, or is some bits that are set. -/
def Values.flag (values : Values) (opt : ArgparseOption) (unset : Bool) : Values :=
  match opt.value with
  | none => values
  | some cell =>
    let old := values.ints cell
    let data := BitVec.ofInt 32 opt.data
    values.setInt cell <| match opt.type, unset with
      | .bit, false => (BitVec.ofInt 32 old ||| data).toInt
      | .bit, true => (BitVec.ofInt 32 old &&& ~~~data).toInt
      | _, false => max 0 (old + 1)
      | _, true => max 0 (old - 1)

/-- An option that takes a value, and has no callback. -/
def ArgparseOption.Takes (opt : ArgparseOption) (cell : Nat) (value : Value) : Prop :=
  value.Fits opt ∧ opt.value = some cell ∧ opt.callback = none

variable {self : Self Line} {opt : ArgparseOption} {cell : Nat} {value : Value} {unset long : Bool}

theorem argparseGetvalue_flag (h : opt.IsFlag) :
    argparseGetvalue self opt unset long = .ok (0, { self with values := self.values.flag opt unset }) := by
  obtain ⟨htype, hcb⟩ := h
  have hskipped (self : Self Line) : runCallback self opt = .ok (0, self) := by simp [runCallback, hcb]
  cases hcell : opt.value with
  | none => simp [argparseGetvalue, hcell, hskipped, Values.flag]
  | some cell =>
    have hstore : storeValue self opt cell unset long = .ok { self with values := self.values.flag opt unset } := by
      rcases htype with htype | htype <;> cases unset <;> simp [storeValue, Values.flag, hcell, htype]
    simp only [argparseGetvalue, hcell, hstore]
    exact hskipped _

theorem argparseGetvalue_value (h : opt.Takes cell value)
    (htake : takeValue self opt long = .ok (value.bytes, next)) :
    argparseGetvalue self opt unset long = .ok (0, { next with values := next.values.assign cell value }) := by
  obtain ⟨hfits, hcell, hcb⟩ := h
  have hstore : storeValue self opt cell unset long =
      .ok { next with values := next.values.assign cell value } := by
    unfold storeValue
    cases value with
    | text s =>
      rw [show opt.type = .string from hfits]
      dsimp only
      rw [htake]
      rfl
    | number n =>
      obtain ⟨htype, hlow, hhigh⟩ := hfits
      have hn : strtol (Value.number n).bytes = (n, [], false) := strtol_decInt (by omega) (by omega)
      have hmod : n.bmod 4294967296 = n := by rw [Int.bmod_eq_of_le] <;> omega
      rw [htype]
      dsimp only
      rw [htake]
      simp [bind, Except.bind, hn, hmod, Values.assign, pure, Except.pure]
  simp only [argparseGetvalue, hcell, hstore]
  simp [runCallback, hcb, bind, Except.bind]

-- ---------------------------------------------------------------------------
-- Names
-- ---------------------------------------------------------------------------

/-- What is behind the name: nothing, or a value. -/
def Ends (tail : Bytes) : Prop := tail = [] ∨ ∃ value, tail = 61 :: value

def PlainName (name : Bytes) : Prop := name ≠ [] ∧ 61 ∉ name ∧ ¬ bytes "no-" <+: name

instance (name : Bytes) : Decidable (PlainName name) :=
  inferInstanceAs (Decidable (name ≠ [] ∧ 61 ∉ name ∧ ¬ bytes "no-" <+: name))

/-- No two long options have one name, and none looks like another that is negated. -/
structure Argparse.Unambiguous (parser : Argparse) : Prop where
  nodup : (parser.options.filterMap (·.longName)).Nodup
  plain : ∀ opt ∈ parser.options, ∀ name, opt.longName = some name → PlainName name

def written (unset : Bool) (name : Bytes) : Bytes := if unset then bytes "no-" ++ name else name

theorem takeWhile_append_name (hname : (61 : UInt8) ∉ name) (tail : Bytes) :
    (name ++ tail).takeWhile (· ≠ 61) = name ++ tail.takeWhile (· ≠ 61) :=
  List.takeWhile_append_of_pos fun c hc => by simpa using fun h : c = 61 => hname (h ▸ hc)

theorem takeWhile_name (hname : 61 ∉ name) (ht : Ends tail) : (name ++ tail).takeWhile (· ≠ 61) = name := by
  rw [takeWhile_append_name hname]
  rcases ht with rfl | ⟨value, rfl⟩ <;> simp

theorem eq_of_append_eq (hname : 61 ∉ name) (hother : 61 ∉ other) (ht : Ends tail) (hr : Ends rest)
    (h : other ++ rest = name ++ tail) : other = name := by
  rw [← takeWhile_name hother hr, h, takeWhile_name hname ht]

theorem prefixSkip_eq_some : prefixSkip str pre = some rest ↔ pre ++ rest = str := by
  unfold prefixSkip
  constructor
  · intro h
    split at h
    · next hpre =>
      obtain ⟨tail, rfl⟩ := List.isPrefixOf_iff_prefix.mp hpre
      simpa using h.symm
    · cases h
  · rintro rfl
    simp

theorem prefixSkip_eq_none : prefixSkip str pre = none ↔ ¬ pre <+: str := by
  simp [prefixSkip]

theorem not_ends_of_matchName (hname : PlainName name) (hother : PlainName other) (hne : other ≠ name)
    (ht : Ends tail) (h : matchName opt (written unset name ++ tail) other = some (rest, negated)) : ¬ Ends rest := by
  intro hr
  have hno : 61 ∉ bytes "no-" := by decide
  have hwritten : 61 ∉ written unset name := by
    cases unset
    · exact hname.2.1
    · exact fun h => (List.mem_append.mp h).elim hno hname.2.1
  have hdirect (heq : other ++ rest = written unset name ++ tail) : False := by
    have hsame := eq_of_append_eq hwritten hother.2.1 ht hr heq
    cases unset
    · exact hne hsame
    · exact hother.2.2 ⟨name, hsame.symm⟩
  unfold matchName at h
  split at h
  · next rest' hskip =>
    obtain ⟨rfl, -⟩ : rest' = rest ∧ false = negated := by simpa using h
    exact hdirect (prefixSkip_eq_some.mp hskip)
  · split at h
    · cases h
    split at h
    · cases h
    split at h
    · cases h
    · next hcmp =>
      obtain ⟨a, ha, hpair⟩ := Option.map_eq_some_iff.mp h
      obtain ⟨rfl, -⟩ : a = rest ∧ true = negated := by simpa using hpair
      have hbehind := prefixSkip_eq_some.mp ha
      cases unset with
      | false =>
        -- a name that is not negated does not begin like one that is
        have hpre : bytes "no-" <+: name ++ tail := by
          simpa [prefixCmp, written] using hcmp
        have htake : bytes "no-" <+: (name ++ tail).takeWhile (· ≠ 61) := by
          obtain ⟨more, hmore⟩ := hpre
          rw [← hmore, takeWhile_append_name hno]
          exact List.prefix_append _ _
        exact hname.2.2 (takeWhile_name hname.2.1 ht ▸ htake)
      | true =>
        have hdrop : (written true name ++ tail).drop 3 = name ++ tail := by
          rw [written, if_pos rfl, List.append_assoc]
          exact List.drop_left' rfl
        rw [hdrop] at hbehind
        exact hne (eq_of_append_eq hname.2.1 hother.2.1 ht hr hbehind)

theorem matchName_self (hunset : unset → opt.IsFlag ∧ opt.noneg = false ∧ ¬ name <+: written true name ++ tail) :
    matchName opt (written unset name ++ tail) name = some (tail, unset) := by
  cases unset with
  | false =>
    have hskip : prefixSkip (written false name ++ tail) name = some tail := prefixSkip_eq_some.mpr rfl
    simp [matchName, hskip]
  | true =>
    obtain ⟨⟨htype, -⟩, hneg, hpre⟩ := hunset rfl
    have hskip : prefixSkip (written true name ++ tail) name = none := prefixSkip_eq_none.mpr hpre
    have hcmp : prefixCmp (written true name ++ tail) (bytes "no-") = true :=
      List.isPrefixOf_iff_prefix.mpr ⟨name ++ tail, by simp [written]⟩
    have hdrop : (written true name ++ tail).drop 3 = name ++ tail := by
      rw [written, if_pos rfl, List.append_assoc]
      exact List.drop_left' rfl
    have hbehind : prefixSkip (name ++ tail) name = some tail := prefixSkip_eq_some.mpr rfl
    rcases htype with htype | htype <;> simp [matchName, hskip, hneg, htype, hcmp, hdrop, hbehind]

def Self.behind (self : Self Line) : Bytes → Self Line
  | [] => self
  | _ :: value => { self with optvalue := some value }

theorem argparseLongOpt_skip (h : ∀ name, opt.longName = some name → ∀ rest negated,
    matchName opt text name = some (rest, negated) → ¬ Ends rest) (opts : List ArgparseOption) :
    argparseLongOpt self text (opt :: opts) = argparseLongOpt self text opts := by
  simp only [argparseLongOpt]
  rcases hmatch : opt.longName.bind (matchName opt text) with _ | ⟨rest, negated⟩
  · rfl
  · obtain ⟨name, hname, hrest⟩ := Option.bind_eq_some_iff.mp hmatch
    have hends := h name hname rest negated hrest
    rcases rest with _ | ⟨c, value⟩
    · exact absurd (.inl rfl) hends
    · have hc : c ≠ 61 := by
        rintro rfl
        exact hends (.inr ⟨value, rfl⟩)
      simp [hc]

theorem argparseLongOpt_found (hname : opt.longName = some name) (ht : Ends tail)
    (hmatch : matchName opt text name = some (tail, unset)) (opts : List ArgparseOption) :
    argparseLongOpt self text (opt :: opts) = argparseGetvalue (self.behind tail) opt unset true := by
  rcases ht with rfl | ⟨value, rfl⟩ <;> simp [argparseLongOpt, hname, hmatch, Self.behind]

theorem argparseLongOpt_written (self : Self Line) (unset : Bool) (hname : opt.longName = some name) (ht : Ends tail)
    (hunset : unset → opt.IsFlag ∧ opt.noneg = false ∧ ¬ name <+: written true name ++ tail)
    (opts : List ArgparseOption) (hmem : opt ∈ opts) (hnodup : (opts.filterMap (·.longName)).Nodup)
    (hplain : ∀ opt ∈ opts, ∀ name, opt.longName = some name → PlainName name) :
    argparseLongOpt self (written unset name ++ tail) opts = argparseGetvalue (self.behind tail) opt unset true := by
  induction opts with
  | nil => cases hmem
  | cons head opts ih =>
    rcases List.mem_cons.mp hmem with rfl | hrest
    · exact argparseLongOpt_found hname ht (matchName_self hunset) opts
    · have hown : name ∈ opts.filterMap (·.longName) := List.mem_filterMap.mpr ⟨opt, hrest, hname⟩
      have hother (other : Bytes) (hhead : head.longName = some other) : other ≠ name := by
        rintro rfl
        rw [List.filterMap_cons_some hhead] at hnodup
        exact (List.nodup_cons.mp hnodup).1 hown
      have hskip : argparseLongOpt self (written unset name ++ tail) (head :: opts) =
          argparseLongOpt self (written unset name ++ tail) opts :=
        argparseLongOpt_skip (fun other hhead rest negated =>
          not_ends_of_matchName (hplain opt hmem name hname) (hplain head List.mem_cons_self other hhead)
            (hother other hhead) ht) opts
      rw [hskip]
      refine ih hrest ?_ fun opt h => hplain opt (List.mem_cons_of_mem _ h)
      exact hnodup.sublist (List.Sublist.filterMap _ (List.sublist_cons_self head opts))

-- ---------------------------------------------------------------------------
-- Groups
-- ---------------------------------------------------------------------------

def Argparse.Letter (parser : Argparse) (opt : ArgparseOption) : Prop :=
  parser.options.find? (·.shortName == opt.shortName) = some opt

def Values.flags (values : Values) (opts : List ArgparseOption) : Values :=
  opts.foldl (fun values opt => values.flag opt false) values

def pending (rest : Bytes) : Option Bytes := if rest = [] then none else some rest

variable {parser : Argparse}

theorem argparseShortOpt_eq (h : parser.Letter opt) (rest : Bytes) :
    argparseShortOpt parser.options self opt.shortName rest =
      argparseGetvalue { self with optvalue := pending rest } opt false false := by
  simp only [argparseShortOpt, pending, show parser.options.find? (·.shortName == opt.shortName) = some opt from h]

theorem shortOpts_flag (h : parser.Letter opt) (hflag : opt.IsFlag) (rest : Bytes) :
    shortOpts parser.options (opt.shortName :: rest) self =
      if rest = [] then .ok (0, { self with optvalue := none, values := self.values.flag opt false })
      else shortOpts parser.options rest
        { self with optvalue := some rest, values := self.values.flag opt false } := by
  simp only [shortOpts, argparseShortOpt_eq h, argparseGetvalue_flag hflag, pending]
  by_cases hrest : rest = [] <;> simp [hrest, bind, Except.bind, pure, Except.pure]

theorem shortOpts_optvalue (self : Self Line) (optvalue : Option Bytes) (hne : letters ≠ []) :
    shortOpts parser.options letters { self with optvalue } = shortOpts parser.options letters self := by
  cases letters with
  | nil => exact absurd rfl hne
  | cons c rest => rfl

theorem shortOpts_flags (opts : List ArgparseOption) (letters : Bytes) (hne : letters ≠ [])
    (h : ∀ opt ∈ opts, parser.Letter opt ∧ opt.IsFlag) :
    shortOpts parser.options (opts.map (·.shortName) ++ letters) self =
      shortOpts parser.options letters { self with values := self.values.flags opts } := by
  induction opts generalizing self with
  | nil => rfl
  | cons opt opts ih =>
    obtain ⟨hletter, hflag⟩ := h opt List.mem_cons_self
    have hrest : opts.map (·.shortName) ++ letters ≠ [] := by simp [hne]
    rw [List.map_cons, List.cons_append, shortOpts_flag hletter hflag, if_neg hrest,
      ih fun opt h' => h opt (List.mem_cons_of_mem _ h')]
    exact shortOpts_optvalue { self with values := self.values.flags (opt :: opts) } _ hne

theorem shortOpts_value (hletter : parser.Letter opt) (h : opt.Takes cell value) (rest : Bytes) (next : Self Line)
    (htake : takeValue { self with optvalue := pending rest } opt false = .ok (value.bytes, next))
    (hnone : next.optvalue = none) :
    shortOpts parser.options (opt.shortName :: rest) self =
      .ok (0, { next with values := next.values.assign cell value }) := by
  have hget : argparseGetvalue { self with optvalue := pending rest } opt false false =
      .ok (0, { next with values := next.values.assign cell value }) := argparseGetvalue_value h htake
  simp only [shortOpts, argparseShortOpt_eq hletter]
  change (argparseGetvalue { self with optvalue := pending rest } opt false false >>= _) = _
  rw [hget]
  simp [bind, Except.bind, pure, Except.pure, hnone]

-- ---------------------------------------------------------------------------
-- Items
-- ---------------------------------------------------------------------------

/-- One thing a user means. A value is written behind its option, or as the argument
after it. -/
inductive Item
  | word (w : Bytes)
  | short (opts : List ArgparseOption) (opt : ArgparseOption)
  | shortValue (opts : List ArgparseOption) (opt : ArgparseOption) (cell : Nat) (value : Value) (behind : Bool)
  | long (opt : ArgparseOption) (name : Bytes) (unset : Bool)
  | longValue (opt : ArgparseOption) (name : Bytes) (cell : Nat) (value : Value) (behind : Bool)

def Item.render : Item → List Bytes
  | .word w => [w]
  | .short opts opt => [45 :: (opts.map (·.shortName) ++ [opt.shortName])]
  | .shortValue opts opt _ value true => [45 :: (opts.map (·.shortName) ++ opt.shortName :: value.bytes)]
  | .shortValue opts opt _ value false => [45 :: (opts.map (·.shortName) ++ [opt.shortName]), value.bytes]
  | .long _ name unset => [45 :: 45 :: written unset name]
  | .longValue _ name _ value true => [45 :: 45 :: (name ++ 61 :: value.bytes)]
  | .longValue _ name _ value false => [45 :: 45 :: name, value.bytes]

def Item.apply (values : Values) : Item → Values
  | .word _ => values
  | .short opts opt => values.flags (opts ++ [opt])
  | .shortValue opts _ cell value _ => (values.flags opts).assign cell value
  | .long opt _ unset => values.flag opt unset
  | .longValue _ _ cell value _ => values.assign cell value

def Item.words : Item → List Bytes
  | .word w => [w]
  | _ => []

/-- The letters of a group, which does not begin with `-`. -/
structure Argparse.Group (parser : Argparse) (opts : List ArgparseOption) (opt : ArgparseOption) : Prop where
  flags : ∀ opt ∈ opts, parser.Letter opt ∧ opt.IsFlag
  letter : parser.Letter opt
  head : (opts.map (·.shortName) ++ [opt.shortName]).head? ≠ some 45

def Argparse.Named (parser : Argparse) (opt : ArgparseOption) (name : Bytes) : Prop :=
  opt ∈ parser.options ∧ opt.longName = some name

def Item.Valid (parser : Argparse) : Item → Prop
  | .word w => w.head? ≠ some 45 ∨ w = [45]
  | .short opts opt => parser.Group opts opt ∧ opt.IsFlag
  | .shortValue opts opt cell value behind =>
    parser.Group opts opt ∧ opt.Takes cell value ∧ (behind → value.bytes ≠ [])
  | .long opt name unset =>
    parser.Named opt name ∧ opt.IsFlag ∧ (unset → opt.noneg = false ∧ ¬ name <+: bytes "no-" ++ name)
  | .longValue opt name cell value _ => parser.Named opt name ∧ opt.Takes cell value

-- ---------------------------------------------------------------------------
-- The loop
-- ---------------------------------------------------------------------------

theorem kindOf_word (h : w.head? ≠ some 45 ∨ w = [45]) : kindOf w = .verbatim := by
  rcases h with h | rfl
  · exact if_pos (.inl h)
  · rfl

theorem kindOf_group (hne : letters ≠ []) (h : letters.head? ≠ some 45) : kindOf (45 :: letters) = .short := by
  obtain ⟨c, rest, rfl⟩ := List.exists_cons_of_ne_nil hne
  have hc : c ≠ 45 := by simpa using h
  simp [kindOf, hc]

theorem kindOf_long (h : text ≠ []) : kindOf (45 :: 45 :: text) = .long := by
  obtain ⟨c, rest, rfl⟩ := List.exists_cons_of_ne_nil h
  simp [kindOf]

def between (left kept : List Bytes) (values : Values) : Self Line := ⟨⟨left, kept⟩, none, values, []⟩

theorem between_args (arg : Bytes) (left kept : List Bytes) (values : Values) :
    Queue.argc (between (arg :: left) kept values).args ≠ 0 ∧
      Queue.arg (between (arg :: left) kept values).args = some arg :=
  ⟨Nat.succ_ne_zero _, rfl⟩

theorem loop_short (hkind : kindOf (45 :: letters) = .short)
    (h : shortOpts parser.options letters (between ((45 :: letters) :: args) kept values) =
      .ok (0, between (arg :: left) kept values')) :
    parser.loop (fuel + 1) (between ((45 :: letters) :: args) kept values) =
      parser.loop fuel (between left kept values') := by
  obtain ⟨hargc, harg⟩ := between_args (45 :: letters) args kept values
  simp only [Argparse.loop, hargc, harg, if_false, hkind, List.drop_one, List.tail_cons, h]
  rfl

theorem loop_long {self next : Self Line} (hkind : kindOf (45 :: 45 :: text) = .long)
    (hleft : self.args.left = (45 :: 45 :: text) :: args)
    (h : argparseLongOpt self text parser.options = .ok (0, next)) :
    parser.loop (fuel + 1) self = parser.loop fuel next.next := by
  have hargc : Queue.argc self.args ≠ 0 := by simp [Queue.argc, hleft]
  have harg : Queue.arg self.args = some (45 :: 45 :: text) := by simp [Queue.arg, hleft]
  simp only [Argparse.loop, hargc, harg, if_false, hkind, List.drop_succ_cons, List.drop_zero, h]
  rfl

variable {opts : List ArgparseOption} {args left kept : List Bytes} {values : Values} {arg : Bytes}

theorem takeValue_behind (v : Bytes) :
    takeValue { between args kept values with optvalue := some v } opt long = .ok (v, between args kept values) := rfl

theorem takeValue_next (v : Bytes) :
    takeValue (between (arg :: v :: left) kept values) opt long = .ok (v, between (v :: left) kept values) := by
  have hmore : 1 < Queue.argc (between (arg :: v :: left) kept values).args := by simp [Queue.argc, between]
  unfold takeValue
  dsimp only
  rw [if_pos hmore]
  rfl

theorem shortOpts_group (h : parser.Group opts opt) (hflag : opt.IsFlag) :
    shortOpts parser.options (opts.map (·.shortName) ++ [opt.shortName]) (between args kept values) =
      .ok (0, between args kept (values.flags (opts ++ [opt]))) := by
  have hlast : values.flags (opts ++ [opt]) = (values.flags opts).flag opt false := by simp [Values.flags]
  rw [shortOpts_flags opts _ (by simp) h.flags, shortOpts_flag h.letter hflag, if_pos rfl, hlast]
  rfl

theorem shortOpts_behind (h : parser.Group opts opt) (ht : opt.Takes cell value) (hne : value.bytes ≠ []) :
    shortOpts parser.options (opts.map (·.shortName) ++ opt.shortName :: value.bytes) (between args kept values) =
      .ok (0, between args kept ((values.flags opts).assign cell value)) := by
  have hpending : pending value.bytes = some value.bytes := if_neg hne
  rw [shortOpts_flags opts _ (by simp) h.flags]
  exact shortOpts_value h.letter ht value.bytes (between args kept (values.flags opts))
    (hpending ▸ takeValue_behind value.bytes) rfl

theorem shortOpts_next (h : parser.Group opts opt) (ht : opt.Takes cell value) :
    shortOpts parser.options (opts.map (·.shortName) ++ [opt.shortName])
        (between (arg :: value.bytes :: left) kept values) =
      .ok (0, between (value.bytes :: left) kept ((values.flags opts).assign cell value)) := by
  rw [shortOpts_flags opts _ (by simp) h.flags]
  exact shortOpts_value h.letter ht [] (between (value.bytes :: left) kept (values.flags opts))
    (takeValue_next value.bytes) rfl

theorem argparseLongOpt_behind (hu : parser.Unambiguous) (h : parser.Named opt name) (ht : opt.Takes cell value) :
    argparseLongOpt (between args kept values) (name ++ 61 :: value.bytes) parser.options =
      .ok (0, between args kept (values.assign cell value)) := by
  have hfound := argparseLongOpt_written (between args kept values) false h.2
    (.inr ⟨value.bytes, rfl⟩) (fun hset => nomatch hset) parser.options h.1 hu.nodup hu.plain
  exact hfound.trans (argparseGetvalue_value ht (takeValue_behind value.bytes))

theorem argparseLongOpt_next (hu : parser.Unambiguous) (h : parser.Named opt name) (ht : opt.Takes cell value) :
    argparseLongOpt (between (arg :: value.bytes :: left) kept values) name parser.options =
      .ok (0, between (value.bytes :: left) kept (values.assign cell value)) := by
  have hfound := argparseLongOpt_written (between (arg :: value.bytes :: left) kept values) false h.2
    (.inl rfl) (fun hset => nomatch hset) parser.options h.1 hu.nodup hu.plain
  rw [List.append_nil] at hfound
  exact hfound.trans (argparseGetvalue_value ht (takeValue_next value.bytes))

theorem argparseLongOpt_flag (hu : parser.Unambiguous) (h : parser.Named opt name) (hflag : opt.IsFlag)
    (hunset : unset → opt.noneg = false ∧ ¬ name <+: bytes "no-" ++ name) :
    argparseLongOpt (between args kept values) (written unset name) parser.options =
      .ok (0, between args kept (values.flag opt unset)) := by
  have hfound := argparseLongOpt_written (between args kept values) unset h.2 (.inl rfl)
    (fun hset => ⟨hflag, (hunset hset).1, by simpa [written] using (hunset hset).2⟩)
    parser.options h.1 hu.nodup hu.plain
  rw [List.append_nil] at hfound
  exact hfound.trans (argparseGetvalue_flag hflag)

theorem loop_item (hu : parser.Unambiguous) (hstop : parser.stopAtNonOption = false) {item : Item}
    (h : item.Valid parser) (left kept : List Bytes) (values : Values) (fuel : Nat) :
    parser.loop (fuel + 1) (between (item.render ++ left) kept values) =
      parser.loop fuel (between left (kept ++ item.words) (item.apply values)) := by
  have hname {opt : ArgparseOption} {name : Bytes} (h : parser.Named opt name) : name ≠ [] :=
    (hu.plain opt h.1 name h.2).1
  cases item with
  | word w =>
    obtain ⟨hargc, harg⟩ := between_args w left kept values
    change parser.loop (fuel + 1) (between (w :: left) kept values) = _
    simp only [Argparse.loop, hargc, harg, if_false, kindOf_word h, hstop]
    rfl
  | short opts opt =>
    obtain ⟨hgroup, hflag⟩ := h
    simp only [Item.words, List.append_nil]
    exact loop_short (kindOf_group (by simp) hgroup.head) (shortOpts_group hgroup hflag)
  | shortValue opts opt cell value behind =>
    obtain ⟨hgroup, ht, hne⟩ := h
    simp only [Item.words, List.append_nil]
    cases behind with
    | true =>
      have hhead : (opts.map (·.shortName) ++ opt.shortName :: value.bytes).head? ≠ some 45 := by
        have := hgroup.head
        cases opts <;> simpa using this
      exact loop_short (kindOf_group (by simp) hhead) (shortOpts_behind hgroup ht (hne rfl))
    | false => exact loop_short (kindOf_group (by simp) hgroup.head) (shortOpts_next hgroup ht)
  | long opt name unset =>
    obtain ⟨hnamed, hflag, hunset⟩ := h
    have hne : written unset name ≠ [] := by cases unset <;> simp [written, hname hnamed]
    simp only [Item.words, List.append_nil]
    exact loop_long (kindOf_long hne) rfl (argparseLongOpt_flag hu hnamed hflag hunset)
  | longValue opt name cell value behind =>
    obtain ⟨hnamed, ht⟩ := h
    simp only [Item.words, List.append_nil]
    cases behind with
    | true => exact loop_long (kindOf_long (by simp)) rfl (argparseLongOpt_behind hu hnamed ht)
    | false => exact loop_long (kindOf_long (hname hnamed)) rfl (argparseLongOpt_next hu hnamed ht)

/-- What the user means: items, and where `--` comes after them the words behind it. -/
structure CommandLine where
  items : List Item
  rest : Option (List Bytes)

def CommandLine.render (line : CommandLine) : List Bytes :=
  line.items.flatMap Item.render ++ line.rest.elim [] ([45, 45] :: ·)

/-- The arguments that are no options, in order. -/
def CommandLine.words (line : CommandLine) : List Bytes :=
  line.items.flatMap Item.words ++ line.rest.getD []

def CommandLine.apply (line : CommandLine) (values : Values) : Values := line.items.foldl Item.apply values

def CommandLine.Valid (parser : Argparse) (line : CommandLine) : Prop := ∀ item ∈ line.items, item.Valid parser

theorem loop_items (hu : parser.Unambiguous) (hstop : parser.stopAtNonOption = false) (items : List Item)
    (h : ∀ item ∈ items, item.Valid parser) (left kept : List Bytes) (values : Values) (fuel : Nat) :
    parser.loop (items.length + fuel) (between (items.flatMap Item.render ++ left) kept values) =
      parser.loop fuel (between left (kept ++ items.flatMap Item.words) (items.foldl Item.apply values)) := by
  induction items generalizing kept values with
  | nil => simp
  | cons item items ih =>
    have hitem := loop_item hu hstop (h item List.mem_cons_self) (items.flatMap Item.render ++ left) kept values
      (items.length + fuel)
    calc parser.loop ((item :: items).length + fuel)
          (between ((item :: items).flatMap Item.render ++ left) kept values)
      _ = parser.loop (items.length + fuel + 1)
          (between (item.render ++ (items.flatMap Item.render ++ left)) kept values) := by
        rw [List.flatMap_cons, List.append_assoc, List.length_cons, Nat.add_right_comm]
      _ = parser.loop (items.length + fuel)
          (between (items.flatMap Item.render ++ left) (kept ++ item.words) (item.apply values)) := hitem
      _ = _ := by
        rw [ih (fun item hi => h item (List.mem_cons_of_mem _ hi)), List.append_assoc, List.flatMap_cons,
          List.foldl_cons]

/-- The loop ends where no arguments are left, or behind `--`. -/
theorem loop_rest (rest : Option (List Bytes)) (kept : List Bytes) (values : Values) (fuel : Nat) :
    parser.loop (fuel + 1) (between (rest.elim [] ([45, 45] :: ·)) kept values) =
      .ok (between (rest.getD []) kept values) := by
  cases rest with
  | none => rfl
  | some words => rfl

theorem loop_line (hu : parser.Unambiguous) (hstop : parser.stopAtNonOption = false) (line : CommandLine)
    (h : line.Valid parser) (kept : List Bytes) (values : Values) (fuel : Nat) :
    parser.loop (line.items.length + (fuel + 1)) (between line.render kept values) =
      .ok (between (line.rest.getD []) (kept ++ line.items.flatMap Item.words) (line.apply values)) := by
  have hitems := loop_items hu hstop line.items h (line.rest.elim [] ([45, 45] :: ·)) kept values (fuel + 1)
  exact hitems.trans (loop_rest line.rest _ _ _)

theorem sampleParser_unambiguous : sampleParser.Unambiguous where
  nodup := by decide
  plain opt hopt name hname := by
    simp only [sampleParser, List.mem_cons, List.not_mem_nil, or_false] at hopt
    rcases hopt with rfl | rfl | rfl | rfl | rfl | rfl <;> cases hname <;> decide

/-- `a -bdn-5 --no-debug --path=x b -- -c` -/
def sampleLine : CommandLine where
  items := [
    .word (bytes "a"),
    .shortValue [sampleParser.options[3], sampleParser.options[2]] sampleParser.options[4] 2 (.number (-5)) true,
    .long sampleParser.options[2] (bytes "debug") true,
    .longValue sampleParser.options[5] (bytes "path") 0 (.text (bytes "x")) true,
    .word (bytes "b")]
  rest := some [bytes "-c"]

theorem sampleLine_valid : sampleLine.Valid sampleParser := by
  have hflags : ∀ opt ∈ [sampleParser.options[3], sampleParser.options[2]], sampleParser.Letter opt ∧ opt.IsFlag := by
    intro opt hopt
    simp only [List.mem_cons, List.not_mem_nil, or_false] at hopt
    rcases hopt with rfl | rfl
    · exact ⟨rfl, .inr rfl, rfl⟩
    · exact ⟨rfl, .inl rfl, rfl⟩
  intro item hitem
  simp only [sampleLine, List.mem_cons, List.not_mem_nil, or_false] at hitem
  rcases hitem with rfl | rfl | rfl | rfl | rfl
  · exact .inl (by decide)
  · exact ⟨⟨hflags, rfl, by decide⟩, ⟨⟨rfl, by decide⟩, rfl, rfl⟩, fun _ => by decide⟩
  · exact ⟨⟨by simp [sampleParser], rfl⟩, ⟨.inl rfl, rfl⟩, fun _ => ⟨rfl, by decide⟩⟩
  · exact ⟨⟨by simp [sampleParser], rfl⟩, rfl, rfl, rfl⟩
  · exact .inl (by decide)

example : sampleLine.render =
    [bytes "a", bytes "-bdn-5", bytes "--no-debug", bytes "--path=x", bytes "b", bytes "--", bytes "-c"] := by decide

def stale (left kept : List Bytes) (values : Values) (value : Bytes) : Self Line :=
  { between left kept values with optvalue := some value }

/-- A word or a long flag, which leave `optvalue` as it is. -/
def Item.Passes : Item → Prop
  | .word _ | .long .. => True
  | _ => False

theorem loop_given (hu : parser.Unambiguous) (hflag : parser.Named flag name) (hf : flag.IsFlag)
    (value : Bytes) (left kept : List Bytes) (values : Values) (fuel : Nat) :
    parser.loop (fuel + 1) (between ((45 :: 45 :: (name ++ 61 :: value)) :: left) kept values) =
      parser.loop fuel (stale left kept (values.flag flag false) value) := by
  have hfound : argparseLongOpt (between ((45 :: 45 :: (name ++ 61 :: value)) :: left) kept values)
      (name ++ 61 :: value) parser.options =
        .ok (0, stale ((45 :: 45 :: (name ++ 61 :: value)) :: left) kept (values.flag flag false) value) :=
    (argparseLongOpt_written _ false hflag.2 (.inr ⟨value, rfl⟩) (fun hset => nomatch hset) parser.options
      hflag.1 hu.nodup hu.plain).trans (argparseGetvalue_flag hf)
  exact loop_long (kindOf_long (by simp)) rfl hfound

theorem loop_passed (hu : parser.Unambiguous) (hstop : parser.stopAtNonOption = false) {item : Item}
    (h : item.Valid parser) (hpasses : item.Passes) (value : Bytes) (left kept : List Bytes) (values : Values)
    (fuel : Nat) :
    parser.loop (fuel + 1) (stale (item.render ++ left) kept values value) =
      parser.loop fuel (stale left (kept ++ item.words) (item.apply values) value) := by
  cases item with
  | word w =>
    have hargc : Queue.argc (stale (w :: left) kept values value).args ≠ 0 := Nat.succ_ne_zero _
    have harg : Queue.arg (stale (w :: left) kept values value).args = some w := rfl
    change parser.loop (fuel + 1) (stale (w :: left) kept values value) = _
    simp only [Argparse.loop, hargc, harg, if_false, kindOf_word h, hstop]
    rfl
  | long opt name unset =>
    obtain ⟨hnamed, hflag, hunset⟩ := h
    have hname : name ≠ [] := (hu.plain opt hnamed.1 name hnamed.2).1
    have hne : written unset name ≠ [] := by cases unset <;> simp [written, hname]
    have hfound := argparseLongOpt_written (stale ((45 :: 45 :: written unset name) :: left) kept values value) unset
      hnamed.2 (.inl rfl) (fun hset => ⟨hflag, (hunset hset).1, by simpa [written] using (hunset hset).2⟩)
      parser.options hnamed.1 hu.nodup hu.plain
    rw [List.append_nil] at hfound
    simp only [Item.words, List.append_nil]
    exact loop_long (kindOf_long hne) rfl (hfound.trans (argparseGetvalue_flag hflag))
  | short | shortValue | longValue => exact hpasses.elim

theorem loop_passes (hu : parser.Unambiguous) (hstop : parser.stopAtNonOption = false) (items : List Item)
    (h : ∀ item ∈ items, item.Valid parser ∧ item.Passes) (value : Bytes) (left kept : List Bytes) (values : Values)
    (fuel : Nat) :
    parser.loop (items.length + fuel) (stale (items.flatMap Item.render ++ left) kept values value) =
      parser.loop fuel (stale left (kept ++ items.flatMap Item.words) (items.foldl Item.apply values) value) := by
  induction items generalizing kept values with
  | nil => simp
  | cons item items ih =>
    obtain ⟨⟨hvalid, hpasses⟩, hitems⟩ := List.forall_mem_cons.mp h
    have hitem := loop_passed hu hstop hvalid hpasses value (items.flatMap Item.render ++ left) kept values
      (items.length + fuel)
    rw [← List.append_assoc] at hitem
    rw [List.length_cons, Nat.add_right_comm, List.flatMap_cons, List.flatMap_cons, List.foldl_cons, hitem,
      ih hitems, List.append_assoc]

theorem loop_taken (hu : parser.Unambiguous) (hopt : parser.Named opt name) (ht : opt.Takes cell value)
    (left kept : List Bytes) (values : Values) (fuel : Nat) :
    parser.loop (fuel + 1) (stale ((45 :: 45 :: name) :: left) kept values value.bytes) =
      parser.loop fuel (between left kept (values.assign cell value)) := by
  have hne : name ≠ [] := (hu.plain opt hopt.1 name hopt.2).1
  have hfound := argparseLongOpt_written (stale ((45 :: 45 :: name) :: left) kept values value.bytes) false hopt.2
    (.inl rfl) (fun hset => nomatch hset) parser.options hopt.1 hu.nodup hu.plain
  rw [List.append_nil] at hfound
  exact loop_long (kindOf_long hne) rfl
    (hfound.trans (argparseGetvalue_value ht (takeValue_behind value.bytes)))

end GeoNS.Cli
