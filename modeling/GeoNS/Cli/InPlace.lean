import GeoNS.Cli.Argparse
import GeoNS.Lockstep

/-!
# The parser works in place

`argparse_parse` writes the arguments that are no options over the array it reads,
from its first element on, the program's name. What it does is what it would do with
the two apart, and it never leaves the array.
-/

namespace GeoNS.Cli

open CString Lockstep

structure Line where
  left : List Bytes
  kept : List Bytes
  deriving DecidableEq, Repr

instance : Queue Line where
  argc line := line.left.length
  arg line := line.left.head?
  next line := { line with left := line.left.tail }
  keep line arg := { line with kept := line.kept ++ [arg] }

-- ---------------------------------------------------------------------------
-- The array
-- ---------------------------------------------------------------------------

/-- The array holds both, and what is read stays ahead of what is written. -/
structure Args.Holds (args : Args) (line : Line) : Prop where
  left : args.mem.drop args.argv = line.left.map some ++ [none]
  kept : args.mem.take args.cpidx = line.kept.map some
  argc : args.argc = line.left.length
  ahead : args.cpidx < args.argv

variable {args : Args} {line : Line}

theorem Args.Holds.length (h : args.Holds line) : args.mem.length = args.argv + line.left.length + 1 := by
  have := congrArg List.length h.left
  simp at this
  omega

theorem Args.Holds.length_kept (h : args.Holds line) : line.kept.length = args.cpidx := by
  have hlen := h.length
  have := congrArg List.length h.kept
  have := h.ahead
  simp at *
  omega

theorem Args.Holds.argc_eq (h : args.Holds line) : Queue.argc args = Queue.argc line := h.argc

theorem Args.Holds.arg_eq (h : args.Holds line) : Queue.arg args = Queue.arg line := by
  have hget : args.mem[args.argv]? = (line.left.map some ++ [none]).head? := by
    rw [← h.left, List.head?_drop]
  cases hleft : line.left with
  | nil => simp [Queue.arg, hget, hleft]
  | cons arg rest => simp [Queue.arg, hget, hleft]

theorem Args.Holds.next (h : args.Holds line) (hne : line.left ≠ []) :
    Args.Holds (Queue.next args) (Queue.next line) := by
  obtain ⟨arg, rest, hleft⟩ := List.exists_cons_of_ne_nil hne
  have hdrop := congrArg List.tail h.left
  have hargc := h.argc
  constructor
  · simpa [Queue.next, hleft, List.tail_drop] using hdrop
  · exact h.kept
  · simp [Queue.next, hargc]
  · exact Nat.lt_succ_of_lt h.ahead

theorem Args.Holds.keep (h : args.Holds line) (hne : line.left ≠ []) (arg : Bytes) :
    Args.Holds (Queue.next (Queue.keep args arg)) (Queue.next (Queue.keep line arg)) := by
  have hnext := h.next hne
  have hahead := h.ahead
  have hlen := h.length
  constructor
  · calc (args.mem.set args.cpidx (some arg)).drop (args.argv + 1)
      _ = args.mem.drop (args.argv + 1) := by rw [List.drop_set_of_lt (by omega)]
      _ = (Queue.next line).left.map some ++ [none] := hnext.left
  · have htake : (args.mem.set args.cpidx (some arg)).take (args.cpidx + 1) =
        args.mem.take args.cpidx ++ [some arg] := by
      rw [List.take_add_one, List.take_set_of_le (Nat.le_refl _)]
      simp [show args.cpidx < args.mem.length by omega]
    calc (args.mem.set args.cpidx (some arg)).take (args.cpidx + 1)
      _ = line.kept.map some ++ [some arg] := by rw [htake, h.kept]
      _ = (line.kept ++ [arg]).map some := by simp
  · exact hnext.argc
  · exact Nat.succ_lt_succ hahead

theorem Args.Holds.finish (h : args.Holds line) : ∃ rest, args.finish =
    some ((line.kept ++ line.left).map some ++ none :: rest, (line.kept ++ line.left).length) ∧
      (line.kept ++ line.left).length + 1 + rest.length = args.mem.length := by
  have hlen := h.length
  have hargc := h.argc
  have hkept := h.length_kept
  have hahead := h.ahead
  have hleft : (args.mem.drop args.argv).take args.argc = line.left.map some := by
    rw [h.left, h.argc]
    simp
  obtain ⟨arg, rest, hrest⟩ : ∃ arg rest, args.mem.drop (args.cpidx + args.argc) = arg :: rest :=
    List.exists_cons_of_ne_nil (by simp; omega)
  have hat : args.cpidx + args.argc = (line.kept.map some ++ line.left.map some).length := by
    simp [hkept, hargc]
  refine ⟨rest, ?_, ?_⟩
  · rw [Args.finish, if_pos ⟨by omega, by omega⟩, hleft, h.kept, hrest, hat]
    dsimp only
    rw [List.set_append_right _ _ (Nat.le_refl _)]
    simp
  · have := congrArg List.length hrest
    simp at this ⊢
    omega

-- ---------------------------------------------------------------------------
-- The parser
-- ---------------------------------------------------------------------------

structure Twins (n : Nat) (array : Self Args) (line : Self Line) : Prop where
  args : array.args.Holds line.args
  length : line.args.left.length ≤ n
  optvalue : array.optvalue = line.optvalue
  values : array.values = line.values
  unknown : array.unknown = line.unknown

structure Busy (n : Nat) (array : Self Args) (line : Self Line) : Prop extends Twins n array line where
  left : line.args.left ≠ []

/-- In lockstep, and not outside of the array. -/
abbrev Together {α β : Type} (R : α → β → Prop) : Except Exit α → Except Exit β → Prop := Alike (· ≠ .fault) R

variable {n : Nat} {self : Self Args} {twin : Self Line} {opt : ArgparseOption}

theorem Busy.setValues (h : Busy n self twin) (values : Values) :
    Busy n { self with values } { twin with values } :=
  ⟨⟨h.args, h.length, h.optvalue, rfl, h.unknown⟩, h.left⟩

theorem Busy.setOptvalue (h : Busy n self twin) (optvalue : Option Bytes) :
    Busy n { self with optvalue } { twin with optvalue } :=
  ⟨⟨h.args, h.length, rfl, h.values, h.unknown⟩, h.left⟩

theorem takeValue_together (h : Busy n self twin) (opt : ArgparseOption) (long : Bool) :
    Together (fun a b => a.1 = b.1 ∧ Busy n a.2 b.2) (takeValue self opt long) (takeValue twin opt long) := by
  have hnext := h.args.next h.left
  unfold takeValue
  dsimp only
  rw [h.optvalue, h.args.argc_eq, hnext.arg_eq]
  cases twin.optvalue with
  | some value => exact .ok ⟨rfl, h.setOptvalue none⟩
  | none =>
    by_cases hmore : 1 < Queue.argc twin.args
    · obtain ⟨arg, value, rest, htwin⟩ : ∃ arg value rest, twin.args.left = arg :: value :: rest := by
        match hl : twin.args.left with
        | [] => exact absurd hl h.left
        | [_] => simp [Queue.argc, hl] at hmore
        | arg :: value :: rest => exact ⟨arg, value, rest, rfl⟩
      have harg : Queue.arg (Queue.next twin.args) = some value := by simp [Queue.arg, Queue.next, htwin]
      have hstay : (Queue.next twin.args).left ≠ [] := by simp [Queue.next, htwin]
      have hlen : (Queue.next twin.args).left.length ≤ n :=
        Nat.le_trans (by simp [Queue.next]) h.length
      simp only [hmore, if_true, harg]
      exact .ok ⟨rfl, ⟨⟨hnext, hlen, rfl, h.values, h.unknown⟩, hstay⟩⟩
    · simp only [hmore, if_false]
      exact .error (by simp [argparseError])

theorem storeValue_together (h : Busy n self twin) (opt : ArgparseOption) (cell : Nat) (unset long : Bool) :
    Together (Busy n) (storeValue self opt cell unset long) (storeValue twin opt cell unset long) := by
  unfold storeValue
  cases opt.type with
  | group => exact .error (by simp)
  | boolean => simpa only [h.values] using .ok (h.setValues _)
  | bit => simpa only [h.values] using .ok (h.setValues _)
  | string =>
    refine (takeValue_together h opt long).bind fun (v, self) (w, twin) ⟨heq, hb⟩ => ?_
    obtain rfl : v = w := heq
    have hb : Busy n self twin := hb
    simpa only [hb.values] using .ok (hb.setValues _)
  | integer =>
    refine (takeValue_together h opt long).bind fun (v, self) (w, twin) ⟨heq, hb⟩ => ?_
    obtain rfl : v = w := heq
    have hb : Busy n self twin := hb
    dsimp only
    split
    · exact .error (by simp [argparseError])
    · split
      · exact .error (by simp [argparseError])
      · simpa only [hb.values] using .ok (hb.setValues _)

abbrev Coded (R : Self Args → Self Line → Prop) (a : Int × Self Args) (b : Int × Self Line) : Prop :=
  a.1 = b.1 ∧ R a.2 b.2

/-- The callbacks leave the array alone. -/
def ArgparseOption.Sound (opt : ArgparseOption) : Prop :=
  ∀ callback, opt.callback = some callback → ∀ values, callback values ≠ .error .fault

theorem runCallback_together (h : Busy n self twin) (hs : opt.Sound) :
    Together (Coded (Busy n)) (runCallback self opt) (runCallback twin opt) := by
  unfold runCallback
  rw [h.values]
  match hopt : opt.callback with
  | none => exact .ok ⟨rfl, h⟩
  | some callback =>
    dsimp only
    match hrun : callback twin.values with
    | .error e => exact .error fun he => hs callback hopt twin.values (he ▸ hrun)
    | .ok result => exact .ok ⟨rfl, h.setValues result.2⟩

theorem argparseGetvalue_together (h : Busy n self twin) (hs : opt.Sound) (unset long : Bool) :
    Together (Coded (Busy n)) (argparseGetvalue self opt unset long) (argparseGetvalue twin opt unset long) := by
  unfold argparseGetvalue
  cases opt.value with
  | none => exact runCallback_together h hs
  | some cell => exact (storeValue_together h opt cell unset long).bind fun _ _ hb => runCallback_together hb hs

def Argparse.Sound (parser : Argparse) : Prop := ∀ opt ∈ parser.options, opt.Sound

variable {parser : Argparse}

theorem argparseShortOpt_together (hs : parser.Sound) (h : Busy n self twin) (c : UInt8) (rest : Bytes) :
    Together (Coded (Busy n)) (argparseShortOpt parser.options self c rest)
      (argparseShortOpt parser.options twin c rest) := by
  unfold argparseShortOpt
  cases hfind : parser.options.find? (·.shortName == c) with
  | none => exact .ok ⟨rfl, h⟩
  | some opt =>
    exact argparseGetvalue_together (h.setOptvalue _) (hs opt (List.mem_of_find?_eq_some hfind)) false false

theorem shortOpts_together (hs : parser.Sound) (letters : Bytes) (h : Busy n self twin) :
    Together (Coded (Busy n)) (shortOpts parser.options letters self) (shortOpts parser.options letters twin) := by
  induction letters generalizing self twin with
  | nil => exact .ok ⟨rfl, h⟩
  | cons c rest ih =>
    refine (argparseShortOpt_together hs (h.setOptvalue _) c rest).bind
      fun (m, self) (n, twin) ⟨heq, hb⟩ => ?_
    obtain rfl : m = n := heq
    have hopt : self.optvalue = twin.optvalue := hb.optvalue
    dsimp only
    rw [hopt]
    split
    · exact .ok ⟨rfl, hb⟩
    · split
      · exact ih hb
      · exact .ok ⟨rfl, hb⟩

theorem argparseLongOpt_together (h : Busy n self twin) (name : Bytes) (opts : List ArgparseOption)
    (hs : ∀ opt ∈ opts, opt.Sound) :
    Together (Coded (Busy n)) (argparseLongOpt self name opts) (argparseLongOpt twin name opts) := by
  induction opts with
  | nil => exact .ok ⟨rfl, h⟩
  | cons opt opts ih =>
    have ih := ih fun opt hopt => hs opt (List.mem_cons_of_mem _ hopt)
    have hcb := hs opt List.mem_cons_self
    simp only [argparseLongOpt]
    match opt.longName.bind (matchName opt name) with
    | none => exact ih
    | some ([], unset) => exact argparseGetvalue_together h hcb unset true
    | some (c :: value, unset) =>
      by_cases hc : c ≠ 61
      · simpa only [hc, if_true, ne_eq, not_false_eq_true] using ih
      · simpa only [hc, if_false] using argparseGetvalue_together (h.setOptvalue _) hcb unset true

theorem checked_together {a : Int × Self Args} {b : Int × Self Line} (h : Coded (Busy n) a b) :
    Together (Busy n) (parser.checked a) (parser.checked b) := by
  obtain ⟨m, self⟩ := a
  obtain ⟨n, twin⟩ := b
  obtain ⟨rfl : m = n, hb⟩ := h
  have hb : Busy n self twin := hb
  simp only [Argparse.checked, hb.args.arg_eq]
  split
  · exact .ok hb
  · split
    · exact .ok ⟨⟨hb.args, hb.length, hb.optvalue, hb.values, by simp [hb.unknown]⟩, hb.left⟩
    · exact .error (by simp)

theorem Busy.length_next (h : Busy (n + 1) self twin) : (Queue.next twin.args).left.length ≤ n := by
  have := h.length
  simp [Queue.next]
  omega

theorem Busy.next (h : Busy (n + 1) self twin) : Twins n self.next twin.next :=
  ⟨h.args.next h.left, h.length_next, h.optvalue, h.values, h.unknown⟩

theorem loop_together (hs : parser.Sound) (fuel fuel' : Nat) (hf : n ≤ fuel) (hf' : n ≤ fuel')
    (h : Twins n self twin) : Together (Twins n) (parser.loop fuel self) (parser.loop fuel' twin) := by
  induction n generalizing self twin fuel fuel' with
  | zero =>
    have hnil : Queue.argc twin.args = 0 := Nat.le_zero.mp h.length
    have hself : Queue.argc self.args = 0 := h.args.argc_eq.trans hnil
    cases fuel <;> cases fuel' <;> simpa only [Argparse.loop, hnil, hself, if_true] using .ok h
  | succ n ih =>
    have hmono {self : Self Args} {twin : Self Line} (h : Twins n self twin) : Twins (n + 1) self twin :=
      ⟨h.args, Nat.le_succ_of_le h.length, h.optvalue, h.values, h.unknown⟩
    obtain ⟨fuel, rfl⟩ := Nat.exists_eq_add_of_lt hf
    obtain ⟨fuel', rfl⟩ := Nat.exists_eq_add_of_lt hf'
    have ih {self twin} (h : Twins n self twin) :=
      (ih (n + fuel) (n + fuel') (by omega) (by omega) h).mono fun _ _ => hmono
    simp only [Argparse.loop, h.args.argc_eq, h.args.arg_eq]
    match hl : twin.args.left with
    | [] => simpa [Queue.argc, hl] using .ok h
    | arg :: rest =>
      have hargc : Queue.argc twin.args ≠ 0 := by simp [Queue.argc, hl]
      have harg : Queue.arg twin.args = some arg := by simp [Queue.arg, hl]
      have hb : Busy (n + 1) self twin := ⟨h, by simp [hl]⟩
      simp only [hargc, harg, if_false]
      cases kindOf arg with
      | verbatim =>
        dsimp only
        split
        · exact .ok h
        · exact ih ⟨hb.args.keep hb.left arg, hb.length_next, hb.optvalue, hb.values, hb.unknown⟩
      | short =>
        exact (shortOpts_together hs (arg.drop 1) hb).bind fun a b hab =>
          (checked_together hab).bind fun self twin hb => ih hb.next
      | separator => exact .ok (hmono hb.next)
      | long =>
        exact (argparseLongOpt_together hb (arg.drop 2) parser.options hs).bind fun a b hab =>
          (checked_together hab).bind fun self twin hb => ih hb.next

def start (values : Values) (rest : List Bytes) : Self Line := ⟨⟨rest, []⟩, none, values, []⟩

/-- The array begins with the arguments that were kept and those that were left, and NULL. -/
structure Parsed.Of (parsed : Parsed) (line : Self Line) : Prop where
  argc : parsed.argc = (line.args.kept ++ line.args.left).length
  argv : (line.args.kept ++ line.args.left).map some ++ [none] <+: parsed.argv
  values : parsed.values = line.values
  unknown : parsed.unknown = line.unknown

theorem argparseParse_together (hs : parser.Sound) (hf : rest.length ≤ fuel) (values : Values) (name : Bytes) :
    Together Parsed.Of (argparseParse parser values (name :: rest)) (parser.loop fuel (start values rest)) := by
  have hstart : Twins rest.length
      ⟨⟨(name :: rest).map some ++ [none], rest.length, 1, 0⟩, none, values, []⟩ (start values rest) :=
    ⟨⟨by simp [start], rfl, rfl, Nat.zero_lt_one⟩, Nat.le_refl _, rfl, rfl, rfl⟩
  refine (loop_together hs rest.length fuel (Nat.le_refl _) hf hstart).bind_left fun self line h => ?_
  obtain ⟨behind, hfinish, -⟩ := h.args.finish
  let args := line.args.kept ++ line.args.left
  refine ⟨⟨args.length, args.map some ++ none :: behind, self.values, self.unknown⟩, ?_,
    ⟨rfl, ⟨behind, by simp [args]⟩, h.values, h.unknown⟩⟩
  rw [hfinish]
  rfl

/-- What `argparse_parse` returns and leaves in the array is what the parser comes to
that has the two apart, whatever fuel that is given; and it does not leave the array. -/
theorem parse_in_place (parser : Argparse) (values : Values) (name : Bytes) (rest : List Bytes) (fuel : Nat)
    (hs : parser.Sound) (hf : rest.length ≤ fuel) :
    (∃ parsed line, argparseParse parser values (name :: rest) = .ok parsed ∧
        parser.loop fuel (start values rest) = .ok line ∧ parsed.Of line) ∨
      (∃ exit, exit ≠ .fault ∧ argparseParse parser values (name :: rest) = .error exit ∧
        parser.loop fuel (start values rest) = .error exit) := by
  rcases (argparseParse_together hs hf values name).cases with
    ⟨parsed, line, hparsed, hline, h⟩ | ⟨exit, hparsed, hline, h⟩
  · exact .inl ⟨parsed, line, hparsed, hline, h⟩
  · exact .inr ⟨exit, h, hparsed, hline⟩

def sampleParser : Argparse where
  options := [
    ⟨.boolean, 104, some (bytes "help"), none, some argparseHelpCb, 0, true⟩,
    ⟨.group, 0, none, none, none, 0, false⟩,
    ⟨.boolean, 100, some (bytes "debug"), some 0, none, 0, false⟩,
    ⟨.bit, 98, some (bytes "brief"), some 1, none, 4, false⟩,
    ⟨.integer, 110, some (bytes "number"), some 2, none, 0, false⟩,
    ⟨.string, 112, some (bytes "path"), some 0, none, 0, false⟩]
  stopAtNonOption := false
  ignoreUnknownArgs := true

theorem sampleParser_sound : sampleParser.Sound := by
  intro opt hopt callback hcb values
  simp only [sampleParser, List.mem_cons, List.not_mem_nil, or_false] at hopt
  rcases hopt with rfl | rfl | rfl | rfl | rfl | rfl <;> cases hcb
  simp [argparseHelpCb]

theorem parse_in_place_sample :
    (∃ parsed line, argparseParse sampleParser ⟨fun _ => 0, fun _ => none⟩
          [bytes "geons-core", bytes "a", bytes "-dn", bytes "-5", bytes "--no-brief", bytes "b"] = .ok parsed ∧
        sampleParser.loop 9 (start ⟨fun _ => 0, fun _ => none⟩
          [bytes "a", bytes "-dn", bytes "-5", bytes "--no-brief", bytes "b"]) = .ok line ∧ parsed.Of line) ∨
      (∃ exit, exit ≠ .fault ∧ argparseParse sampleParser ⟨fun _ => 0, fun _ => none⟩
          [bytes "geons-core", bytes "a", bytes "-dn", bytes "-5", bytes "--no-brief", bytes "b"] = .error exit ∧
        sampleParser.loop 9 (start ⟨fun _ => 0, fun _ => none⟩
          [bytes "a", bytes "-dn", bytes "-5", bytes "--no-brief", bytes "b"]) = .error exit) :=
  parse_in_place sampleParser ⟨fun _ => 0, fun _ => none⟩ (bytes "geons-core")
    [bytes "a", bytes "-dn", bytes "-5", bytes "--no-brief", bytes "b"] 9 sampleParser_sound (by decide)

end GeoNS.Cli
