import GeoNS.Parson.Laws

/-!
# Dotted names and schemas

The functions of parson that reach into nested objects by a dotted name, the
validation against a schema, and the writer that indents. Allocations succeed.
-/

namespace GeoNS.Parson

open CString

-- ---------------------------------------------------------------------------
-- Equality of values
-- ---------------------------------------------------------------------------

mutual
def valueEq : Value → Value → Bool
  | .null, .null => true
  | .boolean a, .boolean b => a == b
  | .number a, .number b => a == b
  | .string a, .string b => a == b
  | .array a, .array b => itemsEq a b
  | .object a, .object b => membersEq a b
  | _, _ => false
def itemsEq : List Value → List Value → Bool
  | [], [] => true
  | v :: vs, w :: ws => valueEq v w && itemsEq vs ws
  | _, _ => false
def membersEq : Object → Object → Bool
  | [], [] => true
  | (n, v) :: vs, (m, w) :: ws => n == m && valueEq v w && membersEq vs ws
  | _, _ => false
end

mutual
theorem valueEq_iff (v w : Value) : valueEq v w ↔ v = w := by
  cases v with
  | array vs =>
    cases w with
    | array ws => simpa [valueEq] using itemsEq_iff vs ws
    | _ => simp [valueEq]
  | object vs =>
    cases w with
    | object ws => simpa [valueEq] using membersEq_iff vs ws
    | _ => simp [valueEq]
  | _ => cases w <;> simp [valueEq]
theorem itemsEq_iff (vs ws : List Value) : itemsEq vs ws ↔ vs = ws := by
  cases vs with
  | nil => cases ws <;> simp [itemsEq]
  | cons v vs =>
    cases ws with
    | nil => simp [itemsEq]
    | cons w ws => simp [itemsEq, valueEq_iff v w, itemsEq_iff vs ws]
theorem membersEq_iff (vs ws : Object) : membersEq vs ws ↔ vs = ws := by
  cases vs with
  | nil => cases ws <;> simp [membersEq]
  | cons m vs =>
    obtain ⟨name, v⟩ := m
    cases ws with
    | nil => simp [membersEq]
    | cons m ws =>
      obtain ⟨name', w⟩ := m
      simp [membersEq, valueEq_iff v w, membersEq_iff vs ws]
end

instance : DecidableEq Value := fun v w => decidable_of_iff (valueEq v w) (valueEq_iff v w)

-- ---------------------------------------------------------------------------
-- Reading and setting
-- ---------------------------------------------------------------------------

def names (name : Bytes) : List Bytes := name.splitOn 46

def objectDothasValue (object : Option Object) (path : List Bytes) : Bool :=
  (objectDotgetValue object path).isSome

def objectDotgetString (object : Option Object) (path : List Bytes) : Option Bytes :=
  valueGetString (objectDotgetValue object path)

/-- A value that is no boolean gives -1. -/
def valueGetBoolean : Option Value → Int
  | some (.boolean b) => if b then 1 else 0
  | _ => -1

def objectDotgetBoolean (object : Option Object) (path : List Bytes) : Int :=
  valueGetBoolean (objectDotgetValue object path)

/-- Neither an infinity nor a not-a-number becomes a value; both are decimals
that are out of range here. -/
def valueInitNumber (d : Decimal) : Option Value := if d.finite then some (.number d) else none

def valueInitBoolean (boolean : Int) : Option Value := some (.boolean (boolean != 0))

def valueInitNull : Option Value := some .null

/-- `json_object_dotset_value` of a value that is not NULL. A value other than
an object in the way is left there, and nothing is set. -/
def objectDotsetValue (object : Object) : List Bytes → Value → Object
  | [], _ => object
  | [name], v => objectSetValue object name (some v)
  | name :: rest, v =>
    match objectGetValue (some object) name with
    | some (.object inner) => objectSetValue object name (some (.object (objectDotsetValue inner rest v)))
    | some _ => object
    | none => object ++ [(name, .object (objectDotsetValue [] rest v))]

/-- No value other than an object is in the way to the last name. -/
def isReachable (object : Object) : List Bytes → Bool
  | [] => true
  | [_] => true
  | name :: rest =>
    match objectGetValue (some object) name with
    | some (.object inner) => isReachable inner rest
    | some _ => false
    | none => true

-- ---------------------------------------------------------------------------
-- Schemas
-- ---------------------------------------------------------------------------

inductive ValueType
  | null
  | string
  | number
  | object
  | array
  | boolean
  deriving DecidableEq, Repr

def valueGetType : Value → ValueType
  | .null => .null
  | .boolean _ => .boolean
  | .number _ => .number
  | .string _ => .string
  | .array _ => .array
  | .object _ => .object

mutual
/-- A null schema stands for every value, an empty array or object for those of
its type. -/
def jsonValidate : (schema value : Value) → Bool
  | .null, _ => true
  | .boolean _, .boolean _ => true
  | .number _, .number _ => true
  | .string _, .string _ => true
  | .array [], .array _ => true
  | .array (schema :: _), .array items => items.all fun v => jsonValidate schema v
  | .object schema, .object members =>
    schema.isEmpty || (schema.length ≤ members.length && validateMembers schema members)
  | _, _ => false
def validateMembers : (schema members : Object) → Bool
  | [], _ => true
  | (key, schema) :: rest, members =>
    (match objectGetValue (some members) key with
      | some v => jsonValidate schema v
      | none => false) && validateMembers rest members
end

-- ---------------------------------------------------------------------------
-- The writer that indents
-- ---------------------------------------------------------------------------

def indent (level : Nat) : Bytes := List.replicate (4 * level) 32

section Writer

-- what `sprintf` prints for a number
variable (format : Decimal → Bytes)

mutual
def serializePretty (level : Nat) : Value → Bytes
  | .null => bytes "null"
  | .boolean b => if b then bytes "true" else bytes "false"
  | .number d => format d
  | .string s => serializeString s
  | .array [] => bytes "[]"
  | .array (v :: rest) => bytes "[\n" ++ prettyItems (level + 1) (v :: rest) ++ indent level ++ bytes "]"
  | .object [] => [123, 125]
  | .object (m :: rest) =>
    123 :: 10 :: (prettyMembers (level + 1) (m :: rest) ++ indent level ++ [125])
def prettyItems (level : Nat) : List Value → Bytes
  | [] => []
  | v :: rest =>
    indent level ++ serializePretty level v ++ (if rest.isEmpty then [] else bytes ",") ++ bytes "\n" ++
      prettyItems level rest
def prettyMembers (level : Nat) : Object → Bytes
  | [] => []
  | (name, v) :: rest =>
    indent level ++ serializeString name ++ bytes ": " ++ serializePretty level v ++
      (if rest.isEmpty then [] else bytes ",") ++ bytes "\n" ++ prettyMembers level rest
end

def jsonSerializeToStringPretty (v : Value) : Bytes := serializePretty format 0 v

end Writer

-- ---------------------------------------------------------------------------
-- Laws
-- ---------------------------------------------------------------------------

theorem names_ne_nil (name : Bytes) : names name ≠ [] := List.splitOn_ne_nil _ _

theorem names_of_notMem (h : (46 : UInt8) ∉ name) : names name = [name] := List.splitOn_eq_singleton h

theorem objectSetValue_of_none (h : objectGetValue (some object) name = none) (v : Value) :
    objectSetValue object name (some v) = object ++ [(name, v)] := by
  have hany : object.any (·.1 == name) = false := by
    simpa [objectGetValue] using h
  rw [objectSetValue, hany]
  simp

/-- The path goes on in the object under `name`, or in an empty one where
there is nothing. -/
def Continues (object : Object) (name : Bytes) (child : Object) : Prop :=
  objectGetValue (some object) name = none ∧ child = [] ∨
    objectGetValue (some object) name = some (.object child)

theorem continues_of_isReachable (hrest : rest ≠ []) (h : isReachable object (name :: rest)) :
    ∃ child, Continues object name child ∧ isReachable child rest := by
  obtain ⟨second, rest, rfl⟩ := List.exists_cons_of_ne_nil hrest
  unfold isReachable at h
  split at h
  · rename_i child hget
    exact ⟨child, .inr hget, h⟩
  · contradiction
  · rename_i hget
    refine ⟨[], .inl ⟨hget, rfl⟩, ?_⟩
    cases rest <;> rfl

theorem objectDotsetValue_of_continues (hrest : rest ≠ []) (h : Continues object name child)
    (v : Value) :
    objectDotsetValue object (name :: rest) v =
      objectSetValue object name (some (.object (objectDotsetValue child rest v))) := by
  obtain ⟨second, rest, rfl⟩ := List.exists_cons_of_ne_nil hrest
  rcases h with ⟨hnone, rfl⟩ | hsome
  · rw [objectDotsetValue, hnone, objectSetValue_of_none hnone]
    simp
  · rw [objectDotsetValue, hsome]
    simp

theorem objectDotgetValue_cons (hrest : rest ≠ []) (object : Option Object) (name : Bytes) :
    objectDotgetValue object (name :: rest) =
      objectDotgetValue (valueGetObject (objectGetValue object name)) rest := by
  obtain ⟨second, rest, rfl⟩ := List.exists_cons_of_ne_nil hrest
  rw [objectDotgetValue]
  simp

theorem objectDotgetValue_none (path : List Bytes) : objectDotgetValue none path = none := by
  induction path with
  | nil => rfl
  | cons name rest ih =>
    cases rest with
    | nil => rfl
    | cons second rest => exact ih

theorem objectDotgetValue_empty (path : List Bytes) : objectDotgetValue (some []) path = none := by
  cases path with
  | nil => rfl
  | cons name rest =>
    cases rest with
    | nil => rfl
    | cons second rest => exact objectDotgetValue_none _

theorem objectDotgetValue_congr {object object' : Option Object}
    (h : objectGetValue object name = objectGetValue object' name) (rest : List Bytes) :
    objectDotgetValue object (name :: rest) = objectDotgetValue object' (name :: rest) := by
  cases rest with
  | nil => exact h
  | cons second rest => simp only [objectDotgetValue, h]

theorem objectDotgetValue_dotsetValue (hpath : path ≠ []) (h : isReachable object path) (v : Value) :
    objectDotgetValue (some (objectDotsetValue object path v)) path = some v := by
  induction path generalizing object with
  | nil => contradiction
  | cons name rest ih =>
    by_cases hrest : rest = []
    · subst hrest
      simp [objectDotsetValue, objectDotgetValue, objectGetValue_setValue]
    · obtain ⟨child, hcontinues, hchild⟩ := continues_of_isReachable hrest h
      rw [objectDotsetValue_of_continues hrest hcontinues, objectDotgetValue_cons hrest,
        objectGetValue_setValue, if_pos rfl]
      exact ih hrest hchild

theorem objectDotsetValue_of_blocked (hrest : rest ≠ []) (hget : objectGetValue (some object) name = some b)
    (hb : ∀ child, b ≠ .object child) (v : Value) :
    objectDotsetValue object (name :: rest) v = object := by
  obtain ⟨second, rest, rfl⟩ := List.exists_cons_of_ne_nil hrest
  cases b with
  | object child => exact absurd rfl (hb child)
  | _ => rw [objectDotsetValue, hget]; simp

theorem continues_or_blocked (object : Object) (name : Bytes) :
    (∃ child, Continues object name child) ∨
      ∃ b, objectGetValue (some object) name = some b ∧ ∀ child, b ≠ .object child := by
  cases hget : objectGetValue (some object) name with
  | none => exact .inl ⟨[], .inl ⟨hget, rfl⟩⟩
  | some b =>
    cases b with
    | object child => exact .inl ⟨child, .inr hget⟩
    | _ => exact .inr ⟨_, rfl, by simp⟩

theorem objectDotgetValue_of_not_isReachable (h : isReachable object path = false) (v : Value) :
    objectDotgetValue (some (objectDotsetValue object path v)) path = none ∧
      objectDotgetValue (some object) path = none := by
  induction path generalizing object with
  | nil => contradiction
  | cons name rest ih =>
    have hrest : rest ≠ [] := by
      rintro rfl
      contradiction
    rcases continues_or_blocked object name with ⟨child, hchild⟩ | ⟨b, hget, hb⟩
    · have hchild' : isReachable child rest = false := by
        obtain ⟨second, rest, rfl⟩ := List.exists_cons_of_ne_nil hrest
        rcases hchild with ⟨hnone, rfl⟩ | hsome
        · simp [isReachable, hnone] at h
        · simpa [isReachable, hsome] using h
      obtain ⟨hset, hnone⟩ := ih hchild'
      constructor
      · rw [objectDotsetValue_of_continues hrest hchild, objectDotgetValue_cons hrest,
          objectGetValue_setValue, if_pos rfl]
        exact hset
      · rw [objectDotgetValue_cons hrest]
        rcases hchild with ⟨habsent, rfl⟩ | hsome
        · rw [habsent]
          exact objectDotgetValue_none rest
        · rw [hsome]
          exact hnone
    · rw [objectDotsetValue_of_blocked hrest hget hb, objectDotgetValue_cons hrest, hget]
      cases b with
      | object child => exact absurd rfl (hb child)
      | _ => exact ⟨objectDotgetValue_none rest, objectDotgetValue_none rest⟩

theorem objectGetValue_dotsetValue_of_ne (hne : name ≠ other) (object : Object) (rest : List Bytes)
    (v : Value) :
    objectGetValue (some (objectDotsetValue object (name :: rest) v)) other =
      objectGetValue (some object) other := by
  by_cases hrest : rest = []
  · subst hrest
    rw [objectDotsetValue, objectGetValue_setValue, if_neg hne]
  · rcases continues_or_blocked object name with ⟨child, hchild⟩ | ⟨b, hget, hb⟩
    · rw [objectDotsetValue_of_continues hrest hchild, objectGetValue_setValue, if_neg hne]
    · rw [objectDotsetValue_of_blocked hrest hget hb]

/-- What stands under a path that neither begins nor continues the one that is
set is what stood there. -/
theorem objectDotgetValue_dotsetValue_of_not_prefix (hp : ¬ p <+: q) (hq : ¬ q <+: p) (object : Object)
    (v : Value) :
    objectDotgetValue (some (objectDotsetValue object p v)) q = objectDotgetValue (some object) q := by
  induction p generalizing object q with
  | nil => exact absurd List.nil_prefix hp
  | cons name rest ih =>
    cases q with
    | nil => exact absurd List.nil_prefix hq
    | cons other rest' =>
      by_cases hname : name = other
      · subst hname
        rw [List.cons_prefix_cons, not_and] at hp hq
        have hrest : rest ≠ [] := by
          rintro rfl
          exact hp rfl List.nil_prefix
        have hrest' : rest' ≠ [] := by
          rintro rfl
          exact hq rfl List.nil_prefix
        rcases continues_or_blocked object name with ⟨child, hchild⟩ | ⟨b, hget, hb⟩
        · rw [objectDotsetValue_of_continues hrest hchild, objectDotgetValue_cons hrest',
            objectGetValue_setValue, if_pos rfl, objectDotgetValue_cons hrest']
          refine (ih (hp rfl) (hq rfl) child).trans ?_
          rcases hchild with ⟨hnone, rfl⟩ | hsome
          · rw [hnone, objectDotgetValue_empty]
            exact (objectDotgetValue_none rest').symm
          · rw [hsome]
            rfl
        · rw [objectDotsetValue_of_blocked hrest hget hb]
      · exact objectDotgetValue_congr (objectGetValue_dotsetValue_of_ne hname object rest v) rest'

theorem objectDotgetValue_cons_eq_some (hrest : rest ≠ []) {object : Option Object} :
    objectDotgetValue object (name :: rest) = some v ↔
      ∃ child, objectGetValue object name = some (.object child) ∧
        objectDotgetValue (some child) rest = some v := by
  rw [objectDotgetValue_cons hrest]
  constructor
  · intro h
    cases hget : objectGetValue object name with
    | none =>
      rw [hget, show valueGetObject none = none from rfl, objectDotgetValue_none] at h
      contradiction
    | some b =>
      rw [hget] at h
      cases b with
      | object child => exact ⟨child, rfl, h⟩
      | _ =>
        rw [show valueGetObject (some _) = none from rfl, objectDotgetValue_none] at h
        contradiction
  · rintro ⟨child, hget, h⟩
    rw [hget]
    exact h

-- ---------------------------------------------------------------------------
-- Validation
-- ---------------------------------------------------------------------------

theorem validateMembers_iff (schema members : Object) :
    validateMembers schema members ↔
      ∀ m ∈ schema, ∃ v, objectGetValue (some members) m.1 = some v ∧ jsonValidate m.2 v := by
  induction schema with
  | nil => simp [validateMembers]
  | cons m schema ih =>
    obtain ⟨key, v⟩ := m
    rw [validateMembers, Bool.and_eq_true, ih, List.forall_mem_cons]
    refine and_congr_left fun _ => ?_
    cases objectGetValue (some members) key <;> simp

theorem mem_of_objectGetValue {members : Object} (h : objectGetValue (some members) key = some v) :
    key ∈ members.map (·.1) := by
  simp only [objectGetValue, Option.bind_some, Option.map_eq_some_iff] at h
  obtain ⟨m, hfind, -⟩ := h
  have hkey : m.1 = key := by simpa using List.find?_some hfind
  exact hkey ▸ List.mem_map_of_mem (List.mem_of_find?_eq_some hfind)

/-- The count of the members is checked in vain where the keys of the schema
are distinct. -/
theorem jsonValidate_object (hdistinct : (schema.map (·.1)).Nodup) (v : Value) :
    jsonValidate (.object schema) v ↔ ∃ members, v = .object members ∧
      ∀ m ∈ schema, ∃ x, objectGetValue (some members) m.1 = some x ∧ jsonValidate m.2 x := by
  cases v with
  | object members =>
    have hcount (h : validateMembers schema members) : schema.length ≤ members.length := by
      have hsubset : schema.map (·.1) ⊆ members.map (·.1) := by
        intro key hkey
        obtain ⟨m, hm, rfl⟩ := List.mem_map.mp hkey
        obtain ⟨x, hx, -⟩ := (validateMembers_iff schema members).mp h m hm
        exact mem_of_objectGetValue hx
      simpa using (List.subperm_of_subset hdistinct hsubset).length_le
    simp only [jsonValidate, Bool.or_eq_true, Bool.and_eq_true, decide_eq_true_eq, List.isEmpty_iff,
      Value.object.injEq, exists_eq_left', ← validateMembers_iff]
    constructor
    · rintro (rfl | ⟨-, h⟩)
      · rfl
      · exact h
    · intro h
      exact .inr ⟨hcount h, h⟩
  | _ => simp [jsonValidate]

end GeoNS.Parson
