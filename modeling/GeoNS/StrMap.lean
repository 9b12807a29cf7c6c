import GeoNS.AssocMap
import GeoNS.Http.Specs

/-!
# String maps

The functions of `strmap.c`, on strings that are not NULL and with memory for
every node. Over any run of puts and removes a map is the function of the last
put of each key.
-/

namespace GeoNS.StrMap

open CString

structure StringMap where
  nodes : Http.StringMap
  size : Int
  deriving DecidableEq, Repr

def createStringMap : StringMap := ⟨Http.createStringMap, 0⟩

def toInt (n : Int) : Int := Int.bmod n (2 ^ 32)

def maxInt : Nat := 2147483647

/-- Only a node that is added is counted. -/
def stringMapPut (map : StringMap) (key value : Bytes) : StringMap :=
  { nodes := Http.stringMapPut map.nodes key value
    size := if map.nodes.any (·.1 == key) then map.size else toInt (map.size + 1) }

def stringMapGet (map : StringMap) (key : Bytes) : Option Bytes := Http.stringMapGet map.nodes key

/-- The copy that `string_map_get` makes is freed. -/
def stringMapContains (map : StringMap) (key : Bytes) : Bool := (stringMapGet map key).isSome

/-- The first node with the key is unlinked from the one before it, or from the
head. -/
def stringMapRemove (map : StringMap) (key : Bytes) : StringMap :=
  match unlink map.nodes with
  | none => map
  | some nodes => ⟨nodes, toInt (map.size - 1)⟩
where
  unlink : Http.StringMap → Option Http.StringMap
    | [] => none
    | (k, v) :: nodes => if k == key then some nodes else (unlink nodes).map ((k, v) :: ·)

-- ---------------------------------------------------------------------------
-- Runs
-- ---------------------------------------------------------------------------

inductive Op
  | put (key value : Bytes)
  | remove (key : Bytes)
  deriving DecidableEq, Repr

def Op.key : Op → Bytes
  | .put key _ => key
  | .remove key => key

def apply (map : StringMap) : Op → StringMap
  | .put key value => stringMapPut map key value
  | .remove key => stringMapRemove map key

def run (ops : List Op) : StringMap := ops.foldl apply createStringMap

theorem run_append (ops : List Op) (op : Op) : run (ops ++ [op]) = apply (run ops) op := by
  simp [run]

-- ---------------------------------------------------------------------------
-- The map that is meant
-- ---------------------------------------------------------------------------

/-- The value of the last put of the key that no remove of it follows. -/
def lastPut (ops : List Op) (key : Bytes) : Option Bytes :=
  match ops.reverse.find? (·.key == key) with
  | some (.put _ value) => some value
  | _ => none

def Op.value : Op → Option Bytes
  | .put _ value => some value
  | .remove _ => none

theorem lastPut_append (ops : List Op) (op : Op) (key : Bytes) :
    lastPut (ops ++ [op]) key = if op.key = key then op.value else lastPut ops key := by
  unfold lastPut
  rw [List.reverse_append, List.reverse_singleton, List.singleton_append]
  by_cases h : op.key = key
  · rw [List.find?_cons_of_pos (by simpa using h), if_pos h]
    cases op <;> rfl
  · rw [List.find?_cons_of_neg (by simpa using h), if_neg h]

-- ---------------------------------------------------------------------------
-- One operation
-- ---------------------------------------------------------------------------

theorem stringMapPut_eq (nodes : Http.StringMap) (key value : Bytes) :
    Http.stringMapPut nodes key value = AssocMap.put nodes key value := by
  have hput : Http.stringMapPut.put key value nodes = AssocMap.replace key value nodes := by
    induction nodes with
    | nil => rfl
    | cons node nodes ih => rw [Http.stringMapPut.put, AssocMap.replace, ih]
  rw [Http.stringMapPut, AssocMap.put, hput]

theorem unlink_eq (nodes : Http.StringMap) (key : Bytes) :
    stringMapRemove.unlink key nodes = AssocMap.take key nodes := by
  induction nodes with
  | nil => rfl
  | cons node nodes ih => rw [stringMapRemove.unlink, AssocMap.take, ih]

/-- What every operation keeps: no key is twice in the nodes, and the size is
their number, as an `int` holds it. -/
structure Inv (map : StringMap) : Prop where
  nodup : (AssocMap.keys map.nodes).Nodup
  size : map.size = toInt map.nodes.length

theorem toInt_add (n : Int) (m : Nat) : toInt (toInt m + n) = toInt (m + n) := Int.bmod_add_bmod

theorem Inv.put (h : Inv map) (key value : Bytes) : Inv (stringMapPut map key value) := by
  refine ⟨?_, ?_⟩
  · simpa only [stringMapPut, stringMapPut_eq] using AssocMap.nodup_put h.nodup key value
  · have hlength := AssocMap.length_put map.nodes key value
    simp only [stringMapPut, stringMapPut_eq, hlength, AssocMap.any_eq_isSome, AssocMap.get_isSome, h.size]
    split
    · rfl
    · rw [toInt_add]
      rfl

theorem Inv.remove (h : Inv map) (key : Bytes) : Inv (stringMapRemove map key) := by
  unfold stringMapRemove
  rw [unlink_eq]
  split
  · exact h
  · rename_i nodes htake
    refine ⟨AssocMap.nodup_take h.nodup htake, ?_⟩
    have hlength := AssocMap.length_take htake
    have hpred : ((nodes.length + 1 : Nat) : Int) + -1 = nodes.length := by omega
    rw [h.size, Int.sub_eq_add_neg, toInt_add, hlength, hpred]

theorem Inv.apply (h : Inv map) (op : Op) : Inv (apply map op) := by
  cases op with
  | put key value => exact h.put key value
  | remove key => exact h.remove key

theorem get_stringMapPut (map : StringMap) (key value k : Bytes) :
    stringMapGet (stringMapPut map key value) k = if k = key then some value else stringMapGet map k := by
  have hget := AssocMap.get_put map.nodes key value k
  rw [← stringMapPut_eq] at hget
  exact hget

theorem get_stringMapRemove (h : Inv map) (key k : Bytes) :
    stringMapGet (stringMapRemove map key) k = if k = key then none else stringMapGet map k := by
  unfold stringMapRemove
  rw [unlink_eq]
  split
  · rename_i htake
    split
    · rename_i hk
      have hgone := AssocMap.take_eq_none map.nodes htake
      rw [← AssocMap.get_isSome, Option.not_isSome_iff_eq_none] at hgone
      rw [hk]
      exact hgone
    · rfl
  · rename_i nodes htake
    exact AssocMap.get_take h.nodup htake k

/-- An operation decides the lookup of its key, and no other. -/
theorem get_apply (h : Inv map) (op : Op) (k : Bytes) :
    stringMapGet (apply map op) k = if op.key = k then op.value else stringMapGet map k := by
  simp only [eq_comm (a := op.key)]
  cases op with
  | put key value => exact get_stringMapPut map key value k
  | remove key => exact get_stringMapRemove h key k

-- ---------------------------------------------------------------------------
-- Any run
-- ---------------------------------------------------------------------------

theorem inv_run (ops : List Op) : Inv (run ops) := by
  induction ops using List.reverseRecOn with
  | nil => exact ⟨List.nodup_nil, by decide⟩
  | append_singleton ops op ih =>
    rw [run_append]
    exact ih.apply op

theorem get_run (ops : List Op) (key : Bytes) : stringMapGet (run ops) key = lastPut ops key := by
  induction ops using List.reverseRecOn with
  | nil => rfl
  | append_singleton ops op ih => rw [run_append, get_apply (inv_run ops), lastPut_append, ih]

theorem toInt_eq_iff (n : Nat) : toInt n = n ↔ n ≤ maxInt := by
  rw [toInt, maxInt, Int.bmod_def]
  split <;> omega

/-- The keys that are present are those of the nodes. -/
theorem ncard_contains (h : Inv map) : Set.ncard {key | stringMapContains map key} = map.nodes.length := by
  have hkeys : {key | stringMapContains map key} = (AssocMap.keys map.nodes).toFinset := by
    ext key
    rw [List.coe_toFinset]
    exact AssocMap.get_isSome
  rw [hkeys, Set.ncard_coe_finset, List.toFinset_card_of_nodup h.nodup, AssocMap.keys, List.length_map]

/-- A map after any run: its lookups are those of the last puts, no key is twice
in its nodes, and its size is the number of its nodes and keys as long as an
`int` can count them. -/
theorem refines (ops : List Op) :
    (∀ key, stringMapGet (run ops) key = lastPut ops key) ∧
    (∀ key, stringMapContains (run ops) key ↔ ∃ value, stringMapGet (run ops) key = some value) ∧
    ((run ops).nodes.map (·.1)).Nodup ∧
    Set.ncard {key | stringMapContains (run ops) key} = (run ops).nodes.length ∧
    ((run ops).size = (run ops).nodes.length ↔ (run ops).nodes.length ≤ maxInt) ∧
    ∀ op key, op.key ≠ key → stringMapGet (apply (run ops) op) key = stringMapGet (run ops) key := by
  have hinv := inv_run ops
  refine ⟨get_run ops, fun key => Option.isSome_iff_exists, hinv.nodup, ncard_contains hinv, ?_, ?_⟩
  · rw [hinv.size]
    exact toInt_eq_iff _
  · intro op key hkey
    rw [get_apply hinv, if_neg hkey]

-- ---------------------------------------------------------------------------
-- More keys than an int counts
-- ---------------------------------------------------------------------------

def puts (n : Nat) : List Op := (List.range n).map fun i => .put (dec i) []

theorem lastPut_puts (n : Nat) : lastPut (puts n) (dec n) = none := by
  have hfresh : (puts n).reverse.find? (·.key == dec n) = none := by
    refine List.find?_eq_none.mpr fun op hop hkey => ?_
    obtain ⟨i, hi, rfl⟩ := List.mem_map.mp (List.mem_reverse.mp hop)
    have heq : i = n := dec_injective (by simpa [Op.key] using hkey)
    exact absurd heq (Nat.ne_of_lt (List.mem_range.mp hi))
  rw [lastPut, hfresh]

theorem length_puts (n : Nat) : (run (puts n)).nodes.length = n := by
  induction n with
  | zero => rfl
  | succ n ih =>
    have hsucc : puts (n + 1) = puts n ++ [.put (dec n) []] := by
      rw [puts, List.range_succ, List.map_append]
      rfl
    have hfresh : dec n ∉ AssocMap.keys (run (puts n)).nodes := by
      rw [← AssocMap.get_isSome, Option.not_isSome_iff_eq_none]
      exact (get_run (puts n) (dec n)).trans (lastPut_puts n)
    rw [hsucc, run_append, apply, stringMapPut, stringMapPut_eq, AssocMap.length_put, if_neg hfresh, ih]

theorem not_size_puts :
    (run (puts (2 ^ 31))).size = -(2 ^ 31) ∧ (run (puts (2 ^ 31))).nodes.length = 2 ^ 31 := by
  have hlength := length_puts (2 ^ 31)
  refine ⟨?_, hlength⟩
  rw [(inv_run (puts (2 ^ 31))).size, hlength]
  decide

end GeoNS.StrMap
