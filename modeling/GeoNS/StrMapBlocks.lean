import GeoNS.Holdings
import GeoNS.StrMap

/-!
# The blocks of a string map

`strmap.c` with the memory it allocates and frees, where there always is some. A
block is known by its number, and no number is given twice.
-/

namespace GeoNS.StrMap.Blocks

open CString Holdings Runs

structure MapNode where
  key : Bytes
  value : Bytes
  node : Nat
  keyBlock : Nat
  valueBlock : Nat
  deriving DecidableEq, Repr

def MapNode.blocks (n : MapNode) : List Nat := [n.keyBlock, n.valueBlock, n.node]

/-- A map, whose own block is 0, and what has been done. A copy that was returned is
the caller's. -/
structure Memory where
  nodes : List MapNode
  next : Nat
  acts : List (Act Nat)
  answers : List (Option (Nat × Bytes))
  deriving DecidableEq, Repr

def createStringMap : Memory := ⟨[], 1, [.acquire 0], []⟩

def replace (key value : Bytes) (block : Nat) : List MapNode → Option (Nat × List MapNode)
  | [] => none
  | n :: nodes =>
    if n.key == key then some (n.valueBlock, { n with value, valueBlock := block } :: nodes)
    else (replace key value block nodes).map fun (old, nodes) => (old, n :: nodes)

def stringMapPut (m : Memory) (key value : Bytes) : Memory :=
  match replace key value m.next m.nodes with
  | some (old, nodes) =>
    { m with nodes, next := m.next + 1, acts := m.acts ++ [.release old, .acquire m.next] }
  | none =>
    { m with
      nodes := ⟨key, value, m.next, m.next + 1, m.next + 2⟩ :: m.nodes
      next := m.next + 3
      acts := m.acts ++ [.acquire m.next, .acquire (m.next + 1), .acquire (m.next + 2)] }

def stringMapGet (m : Memory) (key : Bytes) : Memory :=
  match m.nodes.find? (·.key == key) with
  | some n =>
    { m with
      next := m.next + 1
      acts := m.acts ++ [.acquire m.next]
      answers := m.answers ++ [some (m.next, n.value)] }
  | none => { m with answers := m.answers ++ [none] }

def stringMapContains (m : Memory) (key : Bytes) : Memory :=
  match m.nodes.find? (·.key == key) with
  | some _ => { m with next := m.next + 1, acts := m.acts ++ [.acquire m.next, .release m.next] }
  | none => m

def unlink (key : Bytes) : List MapNode → Option (MapNode × List MapNode)
  | [] => none
  | n :: nodes =>
    if n.key == key then some (n, nodes)
    else (unlink key nodes).map fun (gone, nodes) => (gone, n :: nodes)

def stringMapRemove (m : Memory) (key : Bytes) : Memory :=
  match unlink key m.nodes with
  | some (gone, nodes) => { m with nodes, acts := m.acts ++ gone.blocks.map .release }
  | none => m

def stringMapFree (m : Memory) : List (Act Nat) := m.nodes.flatMap (·.blocks.map .release) ++ [.release 0]

-- ---------------------------------------------------------------------------
-- Runs
-- ---------------------------------------------------------------------------

inductive Call
  | put (key value : Bytes)
  | get (key : Bytes)
  | contains (key : Bytes)
  | remove (key : Bytes)
  deriving DecidableEq, Repr

def call (m : Memory) : Call → Memory
  | .put key value => stringMapPut m key value
  | .get key => stringMapGet m key
  | .contains key => stringMapContains m key
  | .remove key => stringMapRemove m key

def memory (calls : List Call) : Memory := calls.foldl call createStringMap

theorem memory_append (calls : List Call) (c : Call) : memory (calls ++ [c]) = call (memory calls) c := by
  simp [memory]

/-- What a call does to the map that is meant. -/
def Call.op : Call → Option Op
  | .put key value => some (.put key value)
  | .remove key => some (.remove key)
  | _ => none

def ops (calls : List Call) : List Op := calls.filterMap Call.op

def answers : List Call → List (Option Bytes) := go []
where
  go (done : List Op) : List Call → List (Option Bytes)
    | [] => []
    | .get key :: calls => lastPut done key :: go done calls
    | c :: calls => go (done ++ c.op.toList) calls

def Memory.copies (m : Memory) : List Nat := m.answers.filterMap (·.map (·.1))

def Memory.blocks (m : Memory) : List Nat := m.nodes.flatMap MapNode.blocks ++ [0]

-- ---------------------------------------------------------------------------
-- One call
-- ---------------------------------------------------------------------------

/-- What has been acquired and not released is the map's or a copy, and the numbers
from `next` on are new. -/
structure Ledger (m : Memory) : Prop where
  takes : Takes [] m.acts (m.blocks ++ m.copies)
  once : ∀ b, m.acts.count (.acquire b) = if b < m.next then 1 else 0

theorem ledger_create : Ledger createStringMap where
  takes := .acquire 0
  once b := by
    by_cases hb : b = 0
    · simp [createStringMap, hb]
    · have hlt : ¬ b < 1 := by omega
      simp [createStringMap, hlt, Ne.symm hb]

def pairs (nodes : List MapNode) : List (Bytes × Bytes) := nodes.map fun n => (n.key, n.value)

theorem replace_none (h : replace key value block nodes = none) : (pairs nodes).any (·.1 == key) = false := by
  induction nodes with
  | nil => rfl
  | cons n nodes ih =>
    rw [replace] at h
    split at h
    · cases h
    · next hkey =>
      have hrest := ih (Option.map_eq_none_iff.mp h)
      simpa [pairs, hkey] using hrest

theorem replace_some (h : replace key value block nodes = some (old, nodes')) :
    (pairs nodes).any (·.1 == key) ∧ pairs nodes' = AssocMap.replace key value (pairs nodes) ∧
      ∃ rest, (nodes.flatMap MapNode.blocks).Perm (old :: rest) ∧
        (nodes'.flatMap MapNode.blocks).Perm (block :: rest) := by
  induction nodes generalizing nodes' with
  | nil => cases h
  | cons n nodes ih =>
    rw [replace] at h
    split at h
    · next hkey =>
      obtain ⟨rfl, rfl⟩ : n.valueBlock = old ∧ { n with value, valueBlock := block } :: nodes = nodes' := by
        simpa using h
      refine ⟨by simp [pairs, hkey], by simp [pairs, AssocMap.replace, hkey],
        n.keyBlock :: n.node :: nodes.flatMap MapNode.blocks, ?_, ?_⟩
      · exact .swap _ _ _
      · exact .swap _ _ _
    · next hkey =>
      obtain ⟨⟨old', rest'⟩, hrest, hpair⟩ := Option.map_eq_some_iff.mp h
      obtain ⟨rfl, rfl⟩ : old' = old ∧ n :: rest' = nodes' := by simpa using hpair
      obtain ⟨hany, hpairs, rest, hold, hnew⟩ := ih hrest
      have hkey' : (n.key == key) = false := by simpa using hkey
      refine ⟨by simpa [pairs, hkey'] using hany, ?_, n.blocks ++ rest, ?_, ?_⟩
      · simpa [pairs, AssocMap.replace, hkey'] using hpairs
      · exact (hold.append_left n.blocks).trans List.perm_middle
      · exact (hnew.append_left n.blocks).trans List.perm_middle

theorem unlink_none (h : unlink key nodes = none) : AssocMap.take key (pairs nodes) = none := by
  induction nodes with
  | nil => rfl
  | cons n nodes ih =>
    rw [unlink] at h
    split at h
    · cases h
    · next hkey =>
      have hrest := ih (Option.map_eq_none_iff.mp h)
      have hkey' : (n.key == key) = false := by simpa using hkey
      rw [pairs, List.map_cons, AssocMap.take, hkey', if_neg (by simp)]
      exact congrArg (Option.map _) hrest

theorem unlink_some (h : unlink key nodes = some (gone, nodes')) :
    AssocMap.take key (pairs nodes) = some (pairs nodes') ∧
      (nodes.flatMap MapNode.blocks).Perm (gone.blocks ++ nodes'.flatMap MapNode.blocks) := by
  induction nodes generalizing nodes' with
  | nil => cases h
  | cons n nodes ih =>
    rw [unlink] at h
    split at h
    · next hkey =>
      obtain ⟨rfl, rfl⟩ : n = gone ∧ nodes = nodes' := by simpa using h
      exact ⟨by rw [pairs, List.map_cons, AssocMap.take, if_pos hkey]; rfl, .refl _⟩
    · next hkey =>
      obtain ⟨⟨gone', rest⟩, hrest, hpair⟩ := Option.map_eq_some_iff.mp h
      obtain ⟨rfl, rfl⟩ : gone' = gone ∧ n :: rest = nodes' := by simpa using hpair
      obtain ⟨htake, hperm⟩ := ih hrest
      have hkey' : (n.key == key) = false := by simpa using hkey
      refine ⟨?_, ?_⟩
      · rw [pairs, List.map_cons, AssocMap.take, hkey', if_neg (by simp)]
        exact congrArg (Option.map _) htake
      · calc (n :: nodes).flatMap MapNode.blocks
          _ = n.blocks ++ nodes.flatMap MapNode.blocks := List.flatMap_cons
          List.Perm _ (n.blocks ++ (gone'.blocks ++ rest.flatMap MapNode.blocks)) := hperm.append_left _
          List.Perm _ (gone'.blocks ++ (n.blocks ++ rest.flatMap MapNode.blocks)) := by
            rw [← List.append_assoc, ← List.append_assoc]
            exact List.perm_append_comm.append_right _

-- ---------------------------------------------------------------------------
-- The ledger
-- ---------------------------------------------------------------------------

/-- From one memory to another, by acts that acquire the next `k` blocks and release
some. -/
structure Step (m m' : Memory) (k : Nat) (acts : List (Act Nat)) : Prop where
  log : m'.acts = m.acts ++ acts
  next : m'.next = m.next + k
  count : ∀ b, acts.count (.acquire b) = (List.range' m.next k).count b
  takes : Takes (m.blocks ++ m.copies) acts (m'.blocks ++ m'.copies)

theorem Step.refl (m : Memory) : Step m m 0 [] := ⟨by simp, rfl, fun b => by simp, .nil _⟩

theorem Step.trans (h : Step m m' k acts) (h' : Step m' m'' k' acts') : Step m m'' (k + k') (acts ++ acts') where
  log := by rw [h'.log, h.log, List.append_assoc]
  next := by rw [h'.next, h.next, Nat.add_assoc]
  count b := by
    rw [List.count_append, h.count, h'.count, h.next, ← List.count_append, List.range'_append_1]
  takes := h.takes.append h'.takes

theorem count_release_acquire (bs : List Nat) (b : Nat) : (bs.map Act.release).count (.acquire b) = 0 := by
  simp [List.count_eq_zero]

theorem put_step (m : Memory) (key value : Bytes) : ∃ k acts, Step m (stringMapPut m key value) k acts := by
  unfold stringMapPut
  split
  · next old nodes hreplace =>
    obtain ⟨-, -, rest, hold, hnew⟩ := replace_some hreplace
    refine ⟨1, [.release old, .acquire m.next], rfl, rfl, fun b => by simp [List.range', List.count_cons], ?_⟩
    have hswap : Takes [old] [.release old, .acquire m.next] [m.next] :=
      (Takes.release old).append (.acquire m.next)
    refine (hswap.frame (rest ++ [0] ++ m.copies)).perm ?_ ?_
    · simpa [Memory.blocks] using hold.append_right (0 :: m.copies)
    · simpa [Memory.blocks, Memory.copies] using (hnew.append_right (0 :: m.copies)).symm
  · refine ⟨3, [.acquire m.next, .acquire (m.next + 1), .acquire (m.next + 2)], rfl, rfl,
      fun b => by simp [List.range', List.count_cons], ?_⟩
    refine ((Takes.acquires [m.next, m.next + 1, m.next + 2]).frame (m.blocks ++ m.copies)).perm (.refl _) ?_
    have hnode : ([m.next] ++ [m.next + 1, m.next + 2]).Perm ([m.next + 1, m.next + 2] ++ [m.next]) :=
      List.perm_append_comm
    simpa [Memory.blocks, Memory.copies, MapNode.blocks] using hnode.append_right (m.blocks ++ m.copies)

theorem get_step (m : Memory) (key : Bytes) : ∃ k acts, Step m (stringMapGet m key) k acts := by
  unfold stringMapGet
  split
  · next n hfind =>
    refine ⟨1, [.acquire m.next], rfl, rfl, fun b => by simp [List.range', List.count_cons], ?_⟩
    refine ((Takes.acquire m.next).frame (m.blocks ++ m.copies)).perm (.refl _) ?_
    have hlast : ([m.next] ++ (m.blocks ++ m.copies)).Perm (m.blocks ++ m.copies ++ [m.next]) :=
      List.perm_append_comm
    simpa [Memory.blocks, Memory.copies] using hlast
  · refine ⟨0, [], by simp, rfl, fun b => by simp, ?_⟩
    simpa [Memory.blocks, Memory.copies] using Takes.nil (m.blocks ++ m.copies)

theorem contains_step (m : Memory) (key : Bytes) : ∃ k acts, Step m (stringMapContains m key) k acts := by
  unfold stringMapContains
  split
  · refine ⟨1, [.acquire m.next, .release m.next], rfl, rfl, fun b => by simp [List.range', List.count_cons], ?_⟩
    exact ((Takes.acquire m.next).append (Takes.release m.next)).frame (m.blocks ++ m.copies)
  · exact ⟨0, [], .refl m⟩

theorem remove_step (m : Memory) (key : Bytes) : ∃ k acts, Step m (stringMapRemove m key) k acts := by
  unfold stringMapRemove
  split
  · next gone nodes hunlink =>
    obtain ⟨-, hperm⟩ := unlink_some hunlink
    refine ⟨0, gone.blocks.map .release, rfl, rfl, fun b => by simp [count_release_acquire], ?_⟩
    refine ((Takes.releases gone.blocks).frame (nodes.flatMap MapNode.blocks ++ [0] ++ m.copies)).perm ?_ (.refl _)
    simpa [Memory.blocks] using hperm.append_right (0 :: m.copies)
  · exact ⟨0, [], .refl m⟩

theorem call_step (m : Memory) (c : Call) : ∃ k acts, Step m (call m c) k acts := by
  cases c with
  | put key value => exact put_step m key value
  | get key => exact get_step m key
  | contains key => exact contains_step m key
  | remove key => exact remove_step m key

theorem calls_step (m : Memory) (calls : List Call) : ∃ k acts, Step m (calls.foldl call m) k acts := by
  induction calls generalizing m with
  | nil => exact ⟨0, [], .refl m⟩
  | cons c calls ih =>
    obtain ⟨k, acts, hfirst⟩ := call_step m c
    obtain ⟨k', acts', hrest⟩ := ih (call m c)
    exact ⟨k + k', acts ++ acts', hfirst.trans hrest⟩

theorem Ledger.step (h : Ledger m) (hs : Step m m' k acts) : Ledger m' where
  takes := hs.log ▸ h.takes.append hs.takes
  once b := by
    have hrange : (List.range' m.next k).count b = if m.next ≤ b ∧ b < m.next + k then 1 else 0 := by
      rw [List.Nodup.count (List.nodup_range' ..)]
      simp [List.mem_range'_1]
    rw [hs.log, List.count_append, h.once b, hs.count b, hrange, hs.next]
    split <;> split <;> split <;> omega

theorem ledger_memory (calls : List Call) : Ledger (memory calls) := by
  obtain ⟨k, acts, hs⟩ := calls_step createStringMap calls
  exact ledger_create.step hs

theorem takes_stringMapFree (m : Memory) : Takes (m.blocks ++ m.copies) (stringMapFree m) m.copies := by
  have hblocks : Takes (m.nodes.flatMap MapNode.blocks) (m.nodes.flatMap (·.blocks.map .release)) [] := by
    have hmap := Takes.releases (m.nodes.flatMap MapNode.blocks)
    rwa [List.map_flatMap] at hmap
  have hfree : Takes m.blocks (stringMapFree m) [] := (hblocks.frame [0]).append (Takes.release 0)
  exact hfree.frame m.copies

theorem Ledger.free (h : Ledger m) : Takes [] (m.acts ++ stringMapFree m) m.copies :=
  h.takes.append (takes_stringMapFree m)

-- ---------------------------------------------------------------------------
-- The map
-- ---------------------------------------------------------------------------

theorem pairs_stringMapPut (m : Memory) (map : StringMap) (h : pairs m.nodes = map.nodes) (key value : Bytes) :
    pairs (stringMapPut m key value).nodes = (StrMap.stringMapPut map key value).nodes := by
  change _ = Http.stringMapPut map.nodes key value
  rw [stringMapPut_eq, ← h, AssocMap.put, stringMapPut]
  split
  · next old nodes hreplace =>
    obtain ⟨hany, hpairs, -⟩ := replace_some hreplace
    rw [if_pos hany, ← hpairs]
  · next hreplace =>
    rw [if_neg (by simp [replace_none hreplace])]
    rfl

theorem pairs_stringMapRemove (m : Memory) (map : StringMap) (h : pairs m.nodes = map.nodes) (key : Bytes) :
    pairs (stringMapRemove m key).nodes = (StrMap.stringMapRemove map key).nodes := by
  rw [StrMap.stringMapRemove, unlink_eq, ← h, stringMapRemove]
  split
  · next gone nodes hunlink =>
    rw [(unlink_some hunlink).1]
  · next hunlink =>
    rw [unlink_none hunlink]
    exact h

theorem pairs_memory (calls : List Call) : pairs (memory calls).nodes = (StrMap.run (ops calls)).nodes := by
  induction calls using List.reverseRecOn with
  | nil => rfl
  | append_singleton calls c ih =>
    rw [memory_append, ops, List.filterMap_append, ← ops]
    cases c with
    | put key value =>
      rw [show [Call.put key value].filterMap Call.op = [.put key value] from rfl, StrMap.run_append]
      exact pairs_stringMapPut _ _ ih key value
    | remove key =>
      rw [show [Call.remove key].filterMap Call.op = [.remove key] from rfl, StrMap.run_append]
      exact pairs_stringMapRemove _ _ ih key
    | get key =>
      rw [show [Call.get key].filterMap Call.op = [] from rfl, List.append_nil, ← ih]
      simp only [call, stringMapGet]
      split <;> rfl
    | contains key =>
      rw [show [Call.contains key].filterMap Call.op = [] from rfl, List.append_nil, ← ih]
      simp only [call, stringMapContains]
      split <;> rfl

theorem find_pairs (nodes : List MapNode) (key : Bytes) :
    (nodes.find? (·.key == key)).map (·.value) = AssocMap.get (pairs nodes) key := by
  induction nodes with
  | nil => rfl
  | cons n nodes ih =>
    have hcons := AssocMap.get_cons n.key n.value (pairs nodes) key
    rw [show pairs (n :: nodes) = (n.key, n.value) :: pairs nodes from rfl, hcons]
    by_cases hkey : n.key = key <;> simp [hkey, ih]

theorem answers_go_append (done : List Op) (calls : List Call) (c : Call) :
    answers.go done (calls ++ [c]) = answers.go done calls ++ answers.go (done ++ ops calls) [c] := by
  induction calls generalizing done with
  | nil => simp [answers.go, ops]
  | cons d calls ih => cases d <;> simp [answers.go, ih, ops, Call.op, List.filterMap_cons]

theorem answers_memory (calls : List Call) : (memory calls).answers.map (·.map (·.2)) = answers calls := by
  induction calls using List.reverseRecOn with
  | nil => rfl
  | append_singleton calls c ih =>
    rw [memory_append, answers, answers_go_append, List.nil_append, ← answers, ← ih]
    cases c with
    | put key value =>
      simp only [call, stringMapPut]
      split <;> simp [answers.go]
    | remove key =>
      simp only [call, stringMapRemove]
      split <;> simp [answers.go]
    | contains key =>
      simp only [call, stringMapContains]
      split <;> simp [answers.go]
    | get key =>
      have hget : ((memory calls).nodes.find? (·.key == key)).map (·.value) = lastPut (ops calls) key := by
        rw [find_pairs, pairs_memory]
        exact get_run (ops calls) key
      simp only [call, stringMapGet, answers.go, ← hget]
      split
      · next n hfind => simp [hfind]
      · next hfind => simp [hfind]

/-- Over any run of calls on a new map, each get is answered by the map that is meant,
and what is allocated is the map's, or a copy that was returned. Nothing is freed
twice; and what is left when the map is freed are the copies. -/
theorem blocks_of_run (calls : List Call) :
    let m := memory calls
    m.answers.map (·.map (·.2)) = answers calls ∧ pairs m.nodes = (StrMap.run (ops calls)).nodes ∧
      (∃ bs, held m.acts = some bs ∧ bs.Perm (m.blocks ++ m.copies) ∧ bs.Nodup) ∧
      (∃ bs, held (m.acts ++ stringMapFree m) = some bs ∧ bs.Perm m.copies) ∧
      ∀ b, (m.acts ++ stringMapFree m).count (.release b) ≤ 1 := by
  intro m
  have hledger : Ledger m := ledger_memory calls
  have honce (b : Nat) : m.acts.count (.acquire b) ≤ 1 := by
    rw [hledger.once b]
    split <;> omega
  obtain ⟨bs, hheld, hperm⟩ := hledger.takes [] [] (.refl _)
  obtain ⟨cs, hfreed, hcopies⟩ := hledger.free [] [] (.refl _)
  rw [List.append_nil] at hperm hcopies
  refine ⟨answers_memory calls, pairs_memory calls, ⟨bs, hheld, hperm, ?_⟩, ⟨cs, hfreed, hcopies⟩, fun b => ?_⟩
  · refine List.nodup_iff_count_le_one.mpr fun b => ?_
    have hcount := count_held hheld b
    have hle := honce b
    omega
  · have hcount := count_held hfreed b
    have hle := honce b
    have hnone : (stringMapFree m).count (.acquire b) = 0 := by
      simp [List.count_eq_zero, stringMapFree]
    have hacquired : (m.acts ++ stringMapFree m).count (.acquire b) ≤ 1 := by rwa [List.count_append, hnone]
    omega

end GeoNS.StrMap.Blocks
