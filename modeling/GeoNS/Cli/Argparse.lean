import GeoNS.Core

/-!
# The command-line parser

`argparse.c`, less the text of its usage and its floating-point options. What the
options point to is a memory of cells. The parser reads the arguments from a queue
that it also returns those to which are no options; in C both are the array `argv`.
-/

namespace GeoNS.Cli

open CString

/-- The variables that options are stored in. -/
structure Values where
  ints : Nat → Int
  strings : Nat → Option Bytes

def Values.setInt (values : Values) (cell : Nat) (n : Int) : Values :=
  { values with ints := Function.update values.ints cell n }

def Values.setString (values : Values) (cell : Nat) (s : Bytes) : Values :=
  { values with strings := Function.update values.strings cell (some s) }

/-- How the parser ends the program. `fault` is a read or a write outside of the
array of arguments. -/
inductive Exit
  | success
  | error (message : Bytes)
  | unknown (argument : Option Bytes)
  | abort
  | fault
  deriving DecidableEq, Repr

/-- A callback ends the program, or returns a number; it may set variables. -/
abbrev Callback := Values → Except Exit (Int × Values)

def argparseHelpCb : Callback := fun _ => .error .success

inductive OptionType
  | group
  | boolean
  | bit
  | integer
  | string
  deriving DecidableEq, Repr

structure ArgparseOption where
  type : OptionType
  shortName : UInt8
  longName : Option Bytes
  value : Option Nat
  callback : Option Callback
  data : Int
  noneg : Bool

structure Argparse where
  options : List ArgparseOption
  stopAtNonOption : Bool
  ignoreUnknownArgs : Bool

-- ---------------------------------------------------------------------------
-- Arguments
-- ---------------------------------------------------------------------------

class Queue (Q : Type) where
  argc : Q → Nat
  /-- `self->argv[0]` -/
  arg : Q → Option Bytes
  /-- `self->argc--, self->argv++` -/
  next : Q → Q
  /-- `self->out[self->cpidx++] = …` -/
  keep : Q → Bytes → Q

/-- The array of `argv`, whose last element is NULL; `out` begins with its first. -/
structure Args where
  mem : List (Option Bytes)
  argc : Nat
  argv : Nat
  cpidx : Nat
  deriving DecidableEq, Repr

instance : Queue Args where
  argc args := args.argc
  arg args := args.mem[args.argv]?.join
  next args := { args with argc := args.argc - 1, argv := args.argv + 1 }
  keep args arg := { args with mem := args.mem.set args.cpidx (some arg), cpidx := args.cpidx + 1 }

structure Self (Q : Type) where
  args : Q
  optvalue : Option Bytes
  values : Values
  /-- The arguments that were reported. -/
  unknown : List (Option Bytes)

-- ---------------------------------------------------------------------------
-- Values
-- ---------------------------------------------------------------------------

def prefixSkip (str pre : Bytes) : Option Bytes := if pre.isPrefixOf str then some (str.drop pre.length) else none

/-- The result is 0 exactly for a prefix. -/
def prefixCmp (str pre : Bytes) : Bool := pre.isPrefixOf str

def digitValue (c : UInt8) : Nat :=
  if isdigit c then c.toNat - 48
  else if 97 ≤ toupper c + 32 && toupper c + 32 ≤ 122 then (toupper c).toNat - 55
  else 36

/-- The base that `strtol` finds where it is given 0, and the digits behind it. -/
def scanBase : Bytes → Nat × Bytes
  | 48 :: x :: c :: rest =>
    if (x = 120 ∨ x = 88) ∧ digitValue c < 16 then (16, c :: rest) else (8, 48 :: x :: c :: rest)
  | 48 :: rest => (8, 48 :: rest)
  | rest => (10, rest)

/-- `strtol` in base 0 on a 64-bit `long`: the value, the text at `endptr`, and
whether the value was out of range. -/
def strtol (s : Bytes) : Int × Bytes × Bool :=
  let t := s.dropWhile isspace
  let negative := t.head? == some 45
  let t := if negative || t.head? == some 43 then t.tail else t
  let (base, t) := scanBase t
  let ds := t.takeWhile (digitValue · < base)
  let n : Int := ds.foldl (fun n c => base * n + digitValue c) 0
  if ds = [] then (0, s, false)
  else if negative then (max (-n) (-2 ^ 63), t.drop ds.length, -n < -2 ^ 63)
  else (min n (2 ^ 63 - 1), t.drop ds.length, 2 ^ 63 - 1 < n)

def argparseError (opt : ArgparseOption) (reason : Bytes) (long : Bool) : Exit :=
  .error (bytes "error: option `" ++
    (if long then bytes "--" ++ opt.longName.getD [] else [45, opt.shortName]) ++ bytes "` " ++ reason ++ bytes "\n")

variable {Q : Type} [Queue Q]

def takeValue (self : Self Q) (opt : ArgparseOption) (long : Bool) : Except Exit (Bytes × Self Q) :=
  match self.optvalue with
  | some value => .ok (value, { self with optvalue := none })
  | none =>
    if 1 < Queue.argc self.args then
      let args := Queue.next self.args
      match Queue.arg args with
      | some value => .ok (value, { self with args })
      | none => .error .fault
    else .error (argparseError opt (bytes "requires a value") long)

/-- What is stored in `*opt->value`. A count is taken to stay within an `int`. -/
def storeValue (self : Self Q) (opt : ArgparseOption) (cell : Nat) (unset long : Bool) : Except Exit (Self Q) :=
  let old := self.values.ints cell
  match opt.type with
  | .group => .error .abort
  | .boolean => .ok { self with values := self.values.setInt cell (max 0 (if unset then old - 1 else old + 1)) }
  | .bit =>
    let data := BitVec.ofInt 32 opt.data
    let new := if unset then BitVec.ofInt 32 old &&& ~~~data else BitVec.ofInt 32 old ||| data
    .ok { self with values := self.values.setInt cell new.toInt }
  | .string => do
    let (value, self) ← takeValue self opt long
    return { self with values := self.values.setString cell value }
  | .integer => do
    let (value, self) ← takeValue self opt long
    let (n, rest, range) := strtol value
    if range then throw (argparseError opt (bytes "numerical result out of range") long)
    if rest ≠ [] then throw (argparseError opt (bytes "expects an integer value") long)
    return { self with values := self.values.setInt cell (Int.bmod n (2 ^ 32)) }

def runCallback (self : Self Q) (opt : ArgparseOption) : Except Exit (Int × Self Q) :=
  match opt.callback with
  | none => .ok (0, self)
  | some callback => do
    let (result, values) ← callback self.values
    return (result, { self with values })

def argparseGetvalue (self : Self Q) (opt : ArgparseOption) (unset long : Bool) : Except Exit (Int × Self Q) :=
  match opt.value with
  | none => runCallback self opt
  | some cell => do runCallback (← storeValue self opt cell unset long) opt

-- ---------------------------------------------------------------------------
-- Options
-- ---------------------------------------------------------------------------

/-- The option of the first letter of the group; -2 is none. -/
def argparseShortOpt (options : List ArgparseOption) (self : Self Q) (c : UInt8) (rest : Bytes) :
    Except Exit (Int × Self Q) :=
  match options.find? (·.shortName == c) with
  | none => .ok (-2, self)
  | some opt => argparseGetvalue { self with optvalue := if rest = [] then none else some rest } opt false false

/-- The options of a group. Each leaves `optvalue` as it is, behind its letter, or
takes it for its value. -/
def shortOpts (options : List ArgparseOption) : Bytes → Self Q → Except Exit (Int × Self Q)
  | [], self => .ok (0, self)
  | c :: rest, self => do
    let (result, self) ← argparseShortOpt options { self with optvalue := some (c :: rest) } c rest
    if result = -2 then return (-2, self)
    else if self.optvalue.isSome then shortOpts options rest self
    else return (0, self)

/-- The text behind the name, and whether the name is negated. -/
def matchName (opt : ArgparseOption) (name longName : Bytes) : Option (Bytes × Bool) :=
  match prefixSkip name longName with
  | some rest => some (rest, false)
  | none =>
    if opt.noneg then none
    else if opt.type ≠ .boolean ∧ opt.type ≠ .bit then none
    else if !prefixCmp name (bytes "no-") then none
    else (prefixSkip (name.drop 3) longName).map (·, true)

def argparseLongOpt (self : Self Q) (name : Bytes) : List ArgparseOption → Except Exit (Int × Self Q)
  | [] => .ok (-2, self)
  | opt :: options =>
    match opt.longName.bind (matchName opt name) with
    | none => argparseLongOpt self name options
    | some ([], unset) => argparseGetvalue self opt unset true
    | some (c :: value, unset) =>
      if c ≠ 61 then argparseLongOpt self name options
      else argparseGetvalue { self with optvalue := some value } opt unset true

-- ---------------------------------------------------------------------------
-- The loop
-- ---------------------------------------------------------------------------

inductive Kind
  | verbatim
  | short
  | separator
  | long

def kindOf (arg : Bytes) : Kind :=
  if arg.head? ≠ some 45 ∨ arg.length < 2 then .verbatim
  else if arg[1]? ≠ some 45 then .short
  else if arg.length < 3 then .separator
  else .long

def Self.next (self : Self Q) : Self Q := { self with args := Queue.next self.args }

/-- An option was parsed, with -2 for one that is not known. -/
def Argparse.checked (parser : Argparse) (result : Int × Self Q) : Except Exit (Self Q) :=
  let (code, self) := result
  if code ≠ -2 then .ok self
  else if parser.ignoreUnknownArgs then .ok { self with unknown := self.unknown ++ [Queue.arg self.args] }
  else .error (.unknown (Queue.arg self.args))

/-- The loop of `argparse_parse`; the fuel is the number of arguments. -/
def Argparse.loop (parser : Argparse) : (fuel : Nat) → Self Q → Except Exit (Self Q)
  | 0, self => .ok self
  | fuel + 1, self =>
    if Queue.argc self.args = 0 then .ok self
    else
      match Queue.arg self.args with
      | none => .error .fault
      | some arg =>
        match kindOf arg with
        | .verbatim =>
          if parser.stopAtNonOption then .ok self
          else parser.loop fuel { self with args := Queue.next (Queue.keep self.args arg) }
        | .short => do
          let self ← parser.checked (← shortOpts parser.options (arg.drop 1) self)
          parser.loop fuel self.next
        | .separator => .ok self.next
        | .long => do
          let self ← parser.checked (← argparseLongOpt self (arg.drop 2) parser.options)
          parser.loop fuel self.next

/-- The arguments that are left are moved behind those that were kept. -/
def Args.finish (args : Args) : Option (List (Option Bytes) × Nat) :=
  if args.argv + args.argc ≤ args.mem.length ∧ args.cpidx + args.argc < args.mem.length then
    let moved := args.mem.take args.cpidx ++ (args.mem.drop args.argv).take args.argc ++
      args.mem.drop (args.cpidx + args.argc)
    some (moved.set (args.cpidx + args.argc) none, args.cpidx + args.argc)
  else none

structure Parsed where
  argc : Nat
  argv : List (Option Bytes)
  values : Values
  unknown : List (Option Bytes)

/-- Without a program's name the count begins at -1, and goes on from there. -/
def argparseParse (parser : Argparse) (values : Values) (argv : List Bytes) : Except Exit Parsed :=
  match argv with
  | [] => .error .fault
  | _ :: rest => do
    let args : Args := ⟨argv.map some ++ [none], rest.length, 1, 0⟩
    let self ← parser.loop rest.length ⟨args, none, values, []⟩
    match self.args.finish with
    | none => throw .fault
    | some (argv, argc) => return ⟨argc, argv, self.values, self.unknown⟩

end GeoNS.Cli
