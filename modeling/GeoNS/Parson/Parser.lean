import GeoNS.Parson.Value

/-!
# The JSON parser

Parson's recursive descent over a C string, what is left of the text being
passed on from function to function. The fuel bounds the depth of the calls;
`parseValue_fuel` says that any fuel above twice the length of the text gives
the same answer.
-/

namespace GeoNS.Parson

open CString

def maxNesting : Nat := 2048

def skipWhitespaces (s : Bytes) : Bytes := s.dropWhile isspace

-- ---------------------------------------------------------------------------
-- Strings
-- ---------------------------------------------------------------------------

/-- The text up to the matching quote, its escapes kept, and what follows. -/
def skipQuotes : Bytes → Option (Bytes × Bytes)
  | [] => none
  | c :: rest =>
    if c = 34 then some ([], rest)
    else if c = 92 then
      match rest with
      | [] => none
      | d :: rest => (skipQuotes rest).map fun (raw, left) => (c :: d :: raw, left)
    else (skipQuotes rest).map fun (raw, left) => (c :: raw, left)

def hexCharToInt (c : UInt8) : Option Nat :=
  if 48 ≤ c && c ≤ 57 then some (c.toNat - 48)
  else if 97 ≤ c && c ≤ 102 then some (c.toNat - 87)
  else if 65 ≤ c && c ≤ 70 then some (c.toNat - 55)
  else none

def parseUtf16Hex (a b c d : UInt8) : Option Nat := do
  let x1 ← hexCharToInt a
  let x2 ← hexCharToInt b
  let x3 ← hexCharToInt c
  let x4 ← hexCharToInt d
  return x1 * 4096 + x2 * 256 + x3 * 16 + x4

def utf8Encode (cp : Nat) : Bytes :=
  if cp < 0x80 then [UInt8.ofNat cp]
  else if cp < 0x800 then [UInt8.ofNat (0xC0 + cp / 64), UInt8.ofNat (0x80 + cp % 64)]
  else if cp < 0x10000 then
    [UInt8.ofNat (0xE0 + cp / 4096), UInt8.ofNat (0x80 + cp / 64 % 64),
      UInt8.ofNat (0x80 + cp % 64)]
  else
    [UInt8.ofNat (0xF0 + cp / 262144), UInt8.ofNat (0x80 + cp / 4096 % 64),
      UInt8.ofNat (0x80 + cp / 64 % 64), UInt8.ofNat (0x80 + cp % 64)]

def unescape (c : UInt8) : Option UInt8 :=
  if c = 34 then some 34
  else if c = 92 then some 92
  else if c = 47 then some 47
  else if c = 98 then some 8
  else if c = 102 then some 12
  else if c = 110 then some 10
  else if c = 114 then some 13
  else if c = 116 then some 9
  else none

def processString : Bytes → Option Bytes
  | [] => some []
  | c :: rest =>
    if c = 92 then
      match rest with
      | [] => none
      | e :: rest =>
        if e = 117 then
          match rest with
          | x1 :: x2 :: x3 :: x4 :: rest =>
            match parseUtf16Hex x1 x2 x3 x4 with
            | none => none
            | some cp =>
              if cp < 0xD800 || 0xDFFF < cp then (processString rest).map (utf8Encode cp ++ ·)
              else if 0xDBFF < cp then none
              else
                match rest with
                | b :: u :: y1 :: y2 :: y3 :: y4 :: rest =>
                  if b = 92 && u = 117 then
                    match parseUtf16Hex y1 y2 y3 y4 with
                    | none => none
                    | some trail =>
                      if trail < 0xDC00 || 0xDFFF < trail then none
                      else
                        let cp := (cp - 0xD800) * 1024 + (trail - 0xDC00) + 0x10000
                        (processString rest).map (utf8Encode cp ++ ·)
                  else none
                | _ => none
          | _ => none
        else
          match unescape e with
          | none => none
          | some b => (processString rest).map (b :: ·)
    else if c < 32 then none
    else (processString rest).map (c :: ·)

def getQuotedString : Bytes → Option (Bytes × Bytes)
  | [] => none
  | c :: rest =>
    if c = 34 then
      match skipQuotes rest with
      | none => none
      | some (raw, left) => (processString raw).map fun s => (s, left)
    else none

-- ---------------------------------------------------------------------------
-- Numbers
-- ---------------------------------------------------------------------------

def isHexDigit (c : UInt8) : Bool := (hexCharToInt c).isSome

/-- An infinity, a not-a-number or a hexadecimal number stands here: `strtod`
reads it, and parson refuses it. -/
def isExotic (s : Bytes) : Bool :=
  (bytes "INF").isPrefixOf ((s.take 3).map toupper) ||
    (bytes "NAN").isPrefixOf ((s.take 3).map toupper) ||
    match s with
    | 48 :: x :: c :: rest =>
      (x == 120 || x == 88) && (isHexDigit c || (c == 46 && rest.head?.any isHexDigit))
    | _ => false

def scanExponent (s : Bytes) : Bytes × Int :=
  match s with
  | e :: rest =>
    if e = 101 || e = 69 then
      let sign := if rest.head? = some 45 || rest.head? = some 43 then rest.take 1 else []
      let ds := digits (rest.drop sign.length)
      if ds = [] then ([], 0)
      else (e :: (sign ++ ds), if sign = [45] then -(decVal ds : Int) else decVal ds)
    else ([], 0)
  | [] => ([], 0)

/-- The text `strtod` takes for a decimal number, and its value; the text is
empty where there is no number. -/
def strtod (s : Bytes) : Bytes × Decimal :=
  let sign := if s.head? = some 45 then [45] else []
  let s := s.drop sign.length
  let int := digits s
  let s := s.drop int.length
  let point := if s.head? = some 46 then [46] else []
  let frac := if s.head? = some 46 then digits (s.drop 1) else []
  let s := s.drop (point.length + frac.length)
  if int ++ frac = [] then ([], .ofNat 0)
  else
    let (expText, exp) := scanExponent s
    let n : Int := decVal (int ++ frac)
    (sign ++ int ++ point ++ frac ++ expText,
      ⟨if sign = [45] then -n else n, exp - frac.length⟩)

def isDecimal (text : Bytes) : Bool :=
  !(1 < text.length && text.head? == some 48 && text[1]? != some 46) &&
    !(2 < text.length && (bytes "-0").isPrefixOf text && text[2]? != some 46) &&
    text.all fun c => c != 120 && c != 88

def unsigned (s : Bytes) : Bytes := if s.head? = some 45 then s.drop 1 else s

def parseNumberValue (s : Bytes) : Option (Value × Bytes) :=
  if isExotic (unsigned s) then none
  else
    let (text, d) := strtod s
    if d.finite && isDecimal text then some (.number d, s.drop text.length) else none

-- ---------------------------------------------------------------------------
-- Values
-- ---------------------------------------------------------------------------

def parseLiteral (token : Bytes) (v : Value) (s : Bytes) : Option (Value × Bytes) :=
  if token.isPrefixOf s then some (v, s.drop token.length) else none

def parseBooleanValue (s : Bytes) : Option (Value × Bytes) :=
  match parseLiteral (bytes "true") (.boolean true) s with
  | some r => some r
  | none => parseLiteral (bytes "false") (.boolean false) s

def parseStringValue (s : Bytes) : Option (Value × Bytes) :=
  (getQuotedString s).map fun (chars, left) => (.string chars, left)

def isNumberStart (c : UInt8) : Bool := c = 45 || isdigit c

/-- What follows a member or an item: the end, or a comma and what it is
followed by. -/
inductive Next
  | stop (left : Bytes)
  | more (left : Bytes)

def parseNext (close : UInt8) (s : Bytes) : Option Next :=
  match skipWhitespaces s with
  | [] => none
  | c :: rest =>
    if c = 44 then
      match skipWhitespaces rest with
      | [] => none
      | d :: rest => if d = close then some (.stop rest) else some (.more (d :: rest))
    else if c = close then some (.stop rest)
    else none

def parseName (s : Bytes) : Option (Bytes × Bytes) :=
  match getQuotedString s with
  | none => none
  | some (name, left) =>
    if 0 ∈ name then none
    else
      match skipWhitespaces left with
      | [] => none
      | c :: rest => if c = 58 then some (name, rest) else none

mutual
def parseValue (fuel nesting : Nat) (s : Bytes) : Option (Value × Bytes) :=
  match fuel with
  | 0 => none
  | fuel + 1 =>
    if maxNesting < nesting then none
    else
      match skipWhitespaces s with
      | [] => none
      | c :: rest =>
        if c = 123 then
          match skipWhitespaces rest with
          | [] => none
          | d :: rest =>
            if d = 125 then some (.object [], rest)
            else parseMembers fuel (nesting + 1) [] (d :: rest)
        else if c = 91 then
          match skipWhitespaces rest with
          | [] => none
          | d :: rest =>
            if d = 93 then some (.array [], rest)
            else parseItems fuel (nesting + 1) [] (d :: rest)
        else if c = 34 then parseStringValue (c :: rest)
        else if c = 102 || c = 116 then parseBooleanValue (c :: rest)
        else if isNumberStart c then parseNumberValue (c :: rest)
        else if c = 110 then parseLiteral (bytes "null") .null (c :: rest)
        else none
def parseMembers (fuel nesting : Nat) (members : Object) (s : Bytes) : Option (Value × Bytes) :=
  match fuel with
  | 0 => none
  | fuel + 1 =>
    match parseName s with
    | none => none
    | some (name, left) =>
      match parseValue fuel nesting left with
      | none => none
      | some (v, left) =>
        if members.any (·.1 == name) then none
        else
          match parseNext 125 left with
          | none => none
          | some (.stop left) => some (.object (members ++ [(name, v)]), left)
          | some (.more left) => parseMembers fuel nesting (members ++ [(name, v)]) left
def parseItems (fuel nesting : Nat) (items : List Value) (s : Bytes) : Option (Value × Bytes) :=
  match fuel with
  | 0 => none
  | fuel + 1 =>
    match parseValue fuel nesting s with
    | none => none
    | some (v, left) =>
      match parseNext 93 left with
      | none => none
      | some (.stop left) => some (.array (items ++ [v]), left)
      | some (.more left) => parseItems fuel nesting (items ++ [v]) left
end

def parseText (s : Bytes) : Option (Value × Bytes) := parseValue (2 * s.length + 1) 0 s

/-- The value at the head of a text; what follows it is not looked at. -/
def jsonParseString (s : Bytes) : Option Value :=
  (parseText (if [0xEF, 0xBB, 0xBF].isPrefixOf s then s.drop 3 else s)).map (·.1)

end GeoNS.Parson
