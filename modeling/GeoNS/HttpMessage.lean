import GeoNS.CString

/-!
# HTTP messages

A response on the wire, and a reader for it: the status line, the header lines
up to the first empty one, and the rest as the body. What is written of a
message is read back.
-/

namespace HttpMessage

open CString

structure Message where
  version : Bytes
  statusCode : Nat
  reasonPhrase : Bytes
  headers : List (Bytes × Bytes)
  body : Bytes
  deriving DecidableEq, Repr

def crlf : Bytes := [13, 10]

-- ---------------------------------------------------------------------------
-- Writing
-- ---------------------------------------------------------------------------

def statusLine (version : Bytes) (statusCode : Nat) (reasonPhrase : Bytes) : Bytes :=
  version ++ 32 :: (dec statusCode ++ 32 :: reasonPhrase)

def field (name value : Bytes) : Bytes := name ++ 58 :: 32 :: value

def fields (headers : List (Bytes × Bytes)) : Bytes :=
  headers.flatMap fun (name, value) => field name value ++ crlf

def encode (m : Message) : Bytes :=
  statusLine m.version m.statusCode m.reasonPhrase ++ crlf ++ (fields m.headers ++ crlf ++ m.body)

-- ---------------------------------------------------------------------------
-- Reading
-- ---------------------------------------------------------------------------

def readLine : Bytes → Option (Bytes × Bytes)
  | [] => none
  | 13 :: 10 :: rest => some ([], rest)
  | c :: cs => (readLine cs).map fun (line, rest) => (c :: line, rest)

def cut (d : UInt8) (s : Bytes) : Bytes × Bytes :=
  let word := s.takeWhile (· ≠ d)
  (word, s.drop (word.length + 1))

/-- The space behind the colon does not belong to the value. -/
def readField (line : Bytes) : Option (Bytes × Bytes) :=
  if 58 ∈ line then
    let (name, value) := cut 58 line
    some (name, if value.head? = some 32 then value.tail else value)
  else none

def readFields : (fuel : Nat) → Bytes → Option (List (Bytes × Bytes) × Bytes)
  | 0, _ => none
  | fuel + 1, s =>
    match readLine s with
    | none => none
    | some ([], rest) => some ([], rest)
    | some (line, rest) => do
      let header ← readField line
      let (headers, body) ← readFields fuel rest
      return (header :: headers, body)

def decode (s : Bytes) : Option Message := do
  let (line, rest) ← readLine s
  let (version, line) := cut 32 line
  let (code, reasonPhrase) := cut 32 line
  if code.length = 3 ∧ code.all isdigit then
    let (headers, body) ← readFields (rest.length + 1) rest
    return ⟨version, decVal code, reasonPhrase, headers, body⟩
  else none

-- ---------------------------------------------------------------------------
-- Round trip
-- ---------------------------------------------------------------------------

theorem readLine_cons (hc : c ≠ 13) (s : Bytes) :
    readLine (c :: s) = (readLine s).map fun (line, rest) => (c :: line, rest) := by
  rw [readLine]
  intro rest hcr
  exact absurd hcr hc

theorem readLine_append (h : (13 : UInt8) ∉ line) (rest : Bytes) :
    readLine (line ++ crlf ++ rest) = some (line, rest) := by
  induction line with
  | nil => rfl
  | cons c line ih =>
    obtain ⟨hc, hline⟩ := List.ne_and_not_mem_of_not_mem_cons h
    rw [List.cons_append, List.cons_append, readLine_cons (Ne.symm hc), ih hline]
    rfl

theorem cut_append (h : d ∉ word) (rest : Bytes) : cut d (word ++ d :: rest) = (word, rest) := by
  have hword : (word ++ d :: rest).takeWhile (· ≠ d) = word := by
    rw [List.takeWhile_append_of_pos fun c hc => by simpa using fun hd : c = d => h (hd ▸ hc)]
    simp
  rw [cut, hword]
  simp

theorem readField_field (h : (58 : UInt8) ∉ name) (value : Bytes) :
    readField (field name value) = some (name, value) := by
  rw [readField, field, if_pos (by simp), cut_append h]
  rfl

/-- What a header can carry. -/
def Clean (header : Bytes × Bytes) : Prop :=
  (58 : UInt8) ∉ header.1 ∧ (13 : UInt8) ∉ header.1 ∧ (13 : UInt8) ∉ header.2

instance (header : Bytes × Bytes) : Decidable (Clean header) := inferInstanceAs (Decidable (_ ∧ _))

theorem readFields_fields (h : ∀ header ∈ headers, Clean header) (body : Bytes)
    (hfuel : headers.length < fuel) :
    readFields fuel (fields headers ++ crlf ++ body) = some (headers, body) := by
  induction headers generalizing fuel with
  | nil =>
    obtain ⟨fuel, rfl⟩ := Nat.exists_eq_succ_of_ne_zero (Nat.ne_of_gt hfuel)
    rfl
  | cons header headers ih =>
    obtain ⟨fuel, rfl⟩ := Nat.exists_eq_succ_of_ne_zero (Nat.ne_of_gt (Nat.zero_lt_of_lt hfuel))
    obtain ⟨name, value⟩ := header
    obtain ⟨⟨hcolon, hname, hvalue⟩, hrest⟩ := List.forall_mem_cons.mp h
    have hline : (13 : UInt8) ∉ field name value := by simp [field, hname, hvalue]
    have hsplit : fields ((name, value) :: headers) ++ crlf ++ body =
        field name value ++ crlf ++ (fields headers ++ crlf ++ body) := by
      simp [fields]
    have hread := ih hrest (Nat.lt_of_succ_lt_succ hfuel)
    rw [hsplit, readFields, readLine_append hline]
    split
    · contradiction
    · rename_i heq
      exact absurd (congrArg Prod.fst (Option.some.inj heq)) (by simp [field])
    · rename_i heq
      cases heq
      rw [readField_field hcolon, hread]
      rfl

theorem length_headers_le (headers : List (Bytes × Bytes)) : headers.length ≤ (fields headers).length := by
  induction headers with
  | nil => exact Nat.le_refl _
  | cons header headers ih =>
    simp only [fields, field, List.flatMap_cons, List.length_append, List.length_cons] at ih ⊢
    omega

theorem length_dec (hlow : 100 ≤ n) (hhigh : n < 1000) : (dec n).length = 3 := by
  have hle : (dec n).length ≤ 3 := length_dec_le (k := 2) hhigh
  have hlt : ¬ (dec n).length ≤ 2 := by
    intro h
    have hsmall := (Nat.length_toDigits_le_iff (by decide) (by decide)).mp
      (show (Nat.toDigits 10 n).length ≤ 2 by simpa [dec] using h)
    omega
  omega

/-- A message whose status has three digits is read back as it was written. -/
theorem decode_encode (hversion : (32 : UInt8) ∉ m.version ∧ (13 : UInt8) ∉ m.version)
    (hstatus : 100 ≤ m.statusCode ∧ m.statusCode < 1000) (hreason : (13 : UInt8) ∉ m.reasonPhrase)
    (hheaders : ∀ header ∈ m.headers, Clean header) : decode (encode m) = some m := by
  have hdigit : ∀ c ∈ dec m.statusCode, isdigit c := fun c hc => isdigit_of_mem_dec hc
  have hspace : (32 : UInt8) ∉ dec m.statusCode := fun h => absurd (hdigit _ h) (by decide)
  have hcr : (13 : UInt8) ∉ dec m.statusCode := fun h => absurd (hdigit _ h) (by decide)
  have hline : (13 : UInt8) ∉ statusLine m.version m.statusCode m.reasonPhrase := by
    simp [statusLine, hversion.2, hcr, hreason]
  have hfuel : m.headers.length < (fields m.headers ++ crlf ++ m.body).length + 1 := by
    have hle := length_headers_le m.headers
    simp only [List.length_append]
    omega
  rw [decode, encode, readLine_append hline]
  simp only [statusLine, Option.bind_eq_bind, Option.bind_some, cut_append hversion.1,
    cut_append hspace, readFields_fields hheaders m.body hfuel]
  rw [if_pos ⟨length_dec hstatus.1 hstatus.2, List.all_eq_true.mpr hdigit⟩, decVal_dec]
  rfl

end HttpMessage
