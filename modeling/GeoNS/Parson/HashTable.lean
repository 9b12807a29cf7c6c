import GeoNS.Parson.Value
import GeoNS.Probing
import GeoNS.SlotTable

/-!
# Objects as hash tables

The members of an object are in its arrays in order, and their indexes in a ring of
cells, where the hash of the name says where to look. The reads and writes outside of
the arrays are those that have no result.
-/

namespace GeoNS.Parson.HashTable

open CString SlotTable Probing

def startingCapacity : Nat := 16

/-- `hash * 33 + c`, in 64 bits. -/
def hashString (s : Bytes) : UInt64 :=
  (cstr s).foldl (fun hash c => ((hash <<< 5) + hash) + c.toUInt64) 5381

structure Item where
  name : CStr
  value : Value
  cellIx : Nat
  hash : UInt64

/-- The arrays of names, values, cells and hashes are one of items, of which there are
`count`. A cell with `OBJECT_INVALID_IX` is free. -/
structure JsonObject where
  cells : Table Nat
  items : List Item
  itemCapacity : Nat

/-- Which allocations of a call succeed: those of the arrays for a number of cells, and
the copy of the name. -/
structure Memory where
  arrays : Nat → Bool
  name : Bool

/-- `cell_capacity - 1`, as a `size_t`. -/
def mask (capacity : Nat) : Nat := (capacity + (2 ^ 64 - 1)) % 2 ^ 64

def objectInit (memory : Memory) (capacity : Nat) : Option (Option JsonObject) :=
  if capacity = 0 then some (some ⟨[], [], 0⟩)
  else if !memory.arrays capacity then some none
  -- the cells are counted by an `unsigned int`, which does not get there
  else if 2 ^ 32 ≤ capacity then none
  else some (some ⟨.replicate capacity none, [], capacity * 7 / 10⟩)

def objectMake : JsonObject := ⟨[], [], 0⟩

section
variable (o : JsonObject)

def probe (key : CStr) (hash : UInt64) (start : Nat) : (left i : Nat) → Option (Option Nat × Bool)
  | 0, _ => some (none, false)
  | left + 1, i =>
    let ix := (start + i) &&& mask o.cells.length
    match o.cells[ix]? with
    | none => none
    | some none => some (some ix, false)
    | some (some cell) =>
      match o.items[cell]? with
      | none => none
      | some item =>
        if hash ≠ item.hash then probe key hash start left (i + 1)
        else if item.name = key then some (some ix, true)
        else probe key hash start left (i + 1)

def objectGetCellIx (key : CStr) (hash : UInt64) : Option (Option Nat × Bool) :=
  probe o key hash (hash.toNat &&& mask o.cells.length) o.cells.length 0

def objectGetnValue (name : CStr) : Option (Option Value) :=
  match objectGetCellIx o name (hashString name.1) with
  | none => none
  | some (_, false) => some none
  | some (cellIx, true) =>
    (cellIx.bind (slot o.cells)).bind fun itemIx => o.items[itemIx]?.map fun item => some item.value

/-- The member is written behind the others, and its index to the cell. -/
def JsonObject.store (name : CStr) (value : Value) (hash : UInt64) (cellIx : Option Nat) : Option JsonObject :=
  cellIx.bind fun ix =>
    if ix < o.cells.length ∧ o.items.length < o.itemCapacity then
      some { o with
        cells := o.cells.set ix (some o.items.length)
        items := o.items ++ [⟨name, value, ix, hash⟩] }
    else none

variable (grow : JsonObject → Option (Option JsonObject))

/-- The object grows where it has no room for one more, and the cell is looked for again. -/
def makeRoom (name : CStr) (hash : UInt64) (cellIx : Option Nat) : Option (Option (JsonObject × Option Nat)) :=
  if o.itemCapacity ≤ o.items.length then
    match grow o with
    | none => none
    | some none => some none
    | some (some grown) => (objectGetCellIx grown name hash).map fun found => some (grown, found.1)
  else some (some (o, cellIx))

def addWith (name : CStr) (value : Value) : Option (JsonObject × Bool) :=
  match objectGetCellIx o name (hashString name.1) with
  | none => none
  | some (_, true) => some (o, false)
  | some (cellIx, false) =>
    match makeRoom o grow name (hashString name.1) cellIx with
    | none => none
    | some none => some (o, false)
    | some (some (o, cellIx)) => (o.store name value (hashString name.1) cellIx).map (·, true)

end

def rehash (grow : JsonObject → Option (Option JsonObject)) : List Item → JsonObject → Option (Option JsonObject)
  | [], new => some (some new)
  | item :: items, new =>
    match addWith new grow item.name item.value with
    | none => none
    | some (_, false) => some none
    | some (new, true) => rehash grow items new

/-- It adds the members to a new object, and may be called by what adds them. -/
def objectGrowAndRehash (memory : Memory) : (fuel : Nat) → JsonObject → Option (Option JsonObject)
  | 0, _ => none
  | fuel + 1, o =>
    match objectInit memory (max (o.cells.length * 2) startingCapacity) with
    | none => none
    | some none => some none
    | some (some new) => rehash (objectGrowAndRehash memory fuel) o.items new

section
variable (memory : Memory) (fuel : Nat) (o : JsonObject)

def objectAdd (name : CStr) (value : Value) : Option (JsonObject × Bool) :=
  addWith o (objectGrowAndRehash memory fuel) name value

/-- A value that is NULL, or is in an object or array already, is not set: `none`. -/
def objectSetValue (name : CStr) : Option Value → Option (JsonObject × Bool)
  | none => some (o, false)
  | some value =>
    match objectGetCellIx o name (hashString name.1) with
    | none => none
    | some (cellIx, true) =>
      (cellIx.bind (slot o.cells)).bind fun itemIx =>
        if itemIx < o.items.length then
          some ({ o with items := o.items.modify itemIx ({ · with value }) }, true)
        else none
    | some (cellIx, false) =>
      match makeRoom o (objectGrowAndRehash memory fuel) name (hashString name.1) cellIx with
      | none => none
      | some none => some (o, false)
      | some (some (o, cellIx)) =>
        if !memory.name then some (o, false)
        else (o.store name value (hashString name.1) cellIx).map (·, true)

end

/-- The last member takes the place of the one that goes. -/
def JsonObject.dropItem (o : JsonObject) (itemIx : Nat) : Option JsonObject :=
  if itemIx < o.items.length - 1 then
    o.items[o.items.length - 1]?.bind fun item =>
      if item.cellIx < o.cells.length then
        some { o with
          cells := o.cells.set item.cellIx (some itemIx)
          items := (o.items.set itemIx item).dropLast }
      else none
  else some { o with items := o.items.dropLast }

/-- The cells behind the free one are looked at, up to the next that is free. -/
def JsonObject.closeUp (o : JsonObject) : (left i j : Nat) → Option JsonObject
  | 0, i, _ => some { o with cells := o.cells.set i none }
  | left + 1, i, j =>
    let j := (j + 1) &&& mask o.cells.length
    match o.cells[j]? with
    | none => none
    | some none => some { o with cells := o.cells.set i none }
    | some (some cell) =>
      match o.items[cell]? with
      | none => none
      | some item =>
        let k := item.hash.toNat &&& mask o.cells.length
        if (j > i && (k ≤ i || k > j)) || (j < i && (k ≤ i && k > j)) then
          JsonObject.closeUp { o with
            cells := o.cells.set i (some cell)
            items := o.items.set cell { item with cellIx := i } } left j j
        else o.closeUp left i j

def objectRemoveInternal (o : JsonObject) (name : CStr) : Option (JsonObject × Bool) :=
  match objectGetCellIx o name (hashString name.1) with
  | none => none
  | some (_, false) => some (o, false)
  | some (cellIx, true) =>
    cellIx.bind fun cell =>
      (slot o.cells cell).bind fun itemIx =>
        (o.dropItem itemIx).bind fun o =>
          (o.closeUp (o.cells.length - 1) cell cell).map (·, true)

def objectClear (o : JsonObject) : JsonObject :=
  { o with cells := .replicate o.cells.length none, items := [] }

end GeoNS.Parson.HashTable
