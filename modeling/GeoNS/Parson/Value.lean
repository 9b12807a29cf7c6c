import GeoNS.CString

/-!
# JSON values

Parson's values, the accessors and the constructors the program calls, and
its compact writer. A NULL pointer is `none`: every accessor takes one and
passes it on. Allocations succeed.

A number is kept as the decimal that was written, with no rounding to a
double; what the conversion to `unsigned short` makes of one that is out of
range is a parameter of those who convert.
-/

namespace GeoNS.Parson

open CString

/-- `mantissa * 10 ^ exponent` -/
structure Decimal where
  mantissa : Int
  exponent : Int
  deriving DecidableEq, Repr

def Decimal.ofNat (n : Nat) : Decimal := ⟨n, 0⟩

/-- The integer part, as the conversions of C truncate. -/
def Decimal.trunc (d : Decimal) : Int :=
  if 0 ≤ d.exponent then d.mantissa * 10 ^ d.exponent.toNat
  else d.mantissa.tdiv (10 ^ (-d.exponent).toNat)

/-- The first magnitude that rounds to an infinite double. -/
def doubleOverflow : Nat := 2 ^ 1024 - 2 ^ 970

def Decimal.finite (d : Decimal) : Bool :=
  if 0 ≤ d.exponent then d.mantissa.natAbs * 10 ^ d.exponent.toNat < doubleOverflow
  else d.mantissa.natAbs < doubleOverflow * 10 ^ (-d.exponent).toNat

inductive Value
  | null
  | boolean (b : Bool)
  | number (d : Decimal)
  | string (chars : Bytes)
  | array (items : List Value)
  | object (members : List (Bytes × Value))

abbrev Object := List (Bytes × Value)

-- ---------------------------------------------------------------------------
-- Accessors
-- ---------------------------------------------------------------------------

def valueGetObject : Option Value → Option Object
  | some (.object members) => some members
  | _ => none

def valueGetArray : Option Value → Option (List Value)
  | some (.array items) => some items
  | _ => none

/-- The characters as a C string: read up to the first NUL among them. -/
def valueGetString : Option Value → Option Bytes
  | some (.string chars) => some (cstr chars)
  | _ => none

def valueGetNumber : Option Value → Decimal
  | some (.number d) => d
  | _ => .ofNat 0

def objectGetValue (object : Option Object) (name : Bytes) : Option Value :=
  object.bind fun members => (members.find? (·.1 == name)).map (·.2)

def objectGetString (object : Option Object) (name : Bytes) : Option Bytes :=
  valueGetString (objectGetValue object name)

def objectGetNumber (object : Option Object) (name : Bytes) : Decimal :=
  valueGetNumber (objectGetValue object name)

def objectGetArray (object : Option Object) (name : Bytes) : Option (List Value) :=
  valueGetArray (objectGetValue object name)

def objectHasValue (object : Option Object) (name : Bytes) : Bool :=
  (objectGetValue object name).isSome

/-- The names between the dots, walked from the left. -/
def objectDotgetValue (object : Option Object) : List Bytes → Option Value
  | [] => none
  | [name] => objectGetValue object name
  | name :: rest => objectDotgetValue (valueGetObject (objectGetValue object name)) rest

def objectDotgetNumber (object : Option Object) (names : List Bytes) : Decimal :=
  valueGetNumber (objectDotgetValue object names)

def arrayGetCount (array : Option (List Value)) : Nat := (array.getD []).length

def arrayGetObject (array : Option (List Value)) (index : Nat) : Option Object :=
  valueGetObject (array.bind (·[index]?))

-- ---------------------------------------------------------------------------
-- UTF-8
-- ---------------------------------------------------------------------------

def isCont (c : UInt8) : Bool := c &&& 0xC0 == 0x80

def cont (cp : Nat) (c : UInt8) : Nat := cp * 64 + (c &&& 0x3F).toNat

/-- The code point and the length of the sequence at the head of the text. -/
def utf8Head : Bytes → Option (Nat × Nat)
  | c :: rest =>
    if c == 0xC0 || c == 0xC1 || 0xF4 < c || isCont c then none
    else if c &&& 0x80 == 0 then some (c.toNat, 1)
    else if c &&& 0xE0 == 0xC0 then
      match rest with
      | c1 :: _ => if isCont c1 then some (cont (c &&& 0x1F).toNat c1, 2) else none
      | _ => none
    else if c &&& 0xF0 == 0xE0 then
      match rest with
      | c1 :: c2 :: _ =>
        if isCont c1 && isCont c2 then some (cont (cont (c &&& 0xF).toNat c1) c2, 3) else none
      | _ => none
    else
      match rest with
      | c1 :: c2 :: c3 :: _ =>
        if isCont c1 && isCont c2 && isCont c3 then
          some (cont (cont (cont (c &&& 0x7).toNat c1) c2) c3, 4)
        else none
      | _ => none
  | [] => none

def verifyUtf8Sequence (s : Bytes) : Option Nat :=
  (utf8Head s).bind fun (cp, len) =>
    if (cp < 0x80 && 1 < len) || (cp < 0x800 && 2 < len) || (cp < 0x10000 && 3 < len) then none
    else if 0x10FFFF < cp then none
    else if 0xD800 ≤ cp && cp ≤ 0xDFFF then none
    else some len

/-- `skip` bytes belong to a sequence already verified. -/
def isValidUtf8From : (skip : Nat) → Bytes → Bool
  | _, [] => true
  | skip + 1, _ :: cs => isValidUtf8From skip cs
  | 0, c :: cs =>
    match verifyUtf8Sequence (c :: cs) with
    | some len => isValidUtf8From (len - 1) cs
    | none => false

def isValidUtf8 (s : Bytes) : Bool := isValidUtf8From 0 s

-- ---------------------------------------------------------------------------
-- Constructors
-- ---------------------------------------------------------------------------

def valueInitString (s : Bytes) : Option Value :=
  if isValidUtf8 s then some (.string s) else none

/-- A value that is NULL is not set. -/
def objectSetValue (object : Object) (name : Bytes) (value : Option Value) : Object :=
  match value with
  | none => object
  | some v =>
    if object.any (·.1 == name) then object.map fun m => if m.1 == name then (name, v) else m
    else object ++ [(name, v)]

def objectSetString (object : Object) (name : Bytes) (s : Bytes) : Object :=
  objectSetValue object name (valueInitString s)

def objectSetNumber (object : Object) (name : Bytes) (n : Nat) : Object :=
  objectSetValue object name (some (.number (.ofNat n)))

/-- Sets a number under two names, where the object has no first name yet. -/
def objectDotsetNumber (object : Object) (first second : Bytes) (n : Nat) : Object :=
  match objectGetValue (some object) first with
  | none => object ++ [(first, .object (objectSetNumber [] second n))]
  | some (.object inner) =>
    objectSetValue object first (some (.object (objectSetNumber inner second n)))
  | some _ => object

-- ---------------------------------------------------------------------------
-- The writer
-- ---------------------------------------------------------------------------

def hexDigit (n : Nat) : UInt8 := if n < 10 then UInt8.ofNat (48 + n) else UInt8.ofNat (87 + n)

/-- How the writer escapes one character. -/
def escape (c : UInt8) : Bytes :=
  if c = 34 then [92, 34]
  else if c = 92 then [92, 92]
  else if c = 8 then [92, 98]
  else if c = 12 then [92, 102]
  else if c = 10 then [92, 110]
  else if c = 13 then [92, 114]
  else if c = 9 then [92, 116]
  else if c < 32 then [92, 117, 48, 48, hexDigit (c.toNat / 16), hexDigit (c.toNat % 16)]
  else if c = 47 then [92, 47]
  else [c]

def serializeString (s : Bytes) : Bytes := 34 :: (s.flatMap escape ++ [34])

/-- A number that is an integer, as `%1.17g` prints it; the program writes
no other. -/
def serializeNumber (d : Decimal) : Bytes :=
  if d.trunc < 0 then 45 :: dec d.trunc.natAbs else dec d.trunc.natAbs

mutual
def serialize : Value → Bytes
  | .null => bytes "null"
  | .boolean b => if b then bytes "true" else bytes "false"
  | .number d => serializeNumber d
  | .string s => serializeString s
  | .array items => 91 :: (serializeItems items ++ [93])
  | .object members => 123 :: (serializeMembers members ++ [125])
def serializeItems : List Value → Bytes
  | [] => []
  | [v] => serialize v
  | v :: rest => serialize v ++ 44 :: serializeItems rest
def serializeMembers : List (Bytes × Value) → Bytes
  | [] => []
  | [(name, v)] => serializeString name ++ 58 :: serialize v
  | (name, v) :: rest => serializeString name ++ 58 :: (serialize v ++ 44 :: serializeMembers rest)
end

end GeoNS.Parson
