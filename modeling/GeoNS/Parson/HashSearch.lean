import GeoNS.Parson.HashTable

/-!
# The search for a name

Every cell on the way to an item holds another one, so an item is found in its cell, and
the search for any other name ends at the first free cell. A member is stored there, and
the object grows where it has no room for one more.
-/

namespace GeoNS.Parson.HashTable

open CString SlotTable Probing

/-- The numbers of cells and of items there is room for. -/
inductive Capacity : Nat → Nat → Prop
  | empty : Capacity 0 0
  | cells (k : Nat) (hmin : 4 ≤ k) (hmax : k < 32) : Capacity (2 ^ k) (2 ^ k * 7 / 10)

/-- The items and the cells point to each other, but for the cell `i` that is becoming free. -/
def Linked (i : Option Nat) (cells : Table Nat) (items : List Item) : Prop :=
  ∀ c p, items[c]?.map (·.cellIx) = some p ↔ some p ≠ i ∧ slot cells p = some c

def JsonObject.home (o : JsonObject) (p : Nat) : Option Nat :=
  (slot o.cells p).bind fun c => o.items[c]?.map fun item => item.hash.toNat % o.cells.length

def JsonObject.homeOf (o : JsonObject) (name : CStr) : Nat := (hashString name.1).toNat % o.cells.length

structure Arrays (o : JsonObject) : Prop where
  capacity : Capacity o.cells.length o.itemCapacity
  room : o.items.length ≤ o.itemCapacity
  hashes : ∀ item ∈ o.items, item.hash = hashString item.name.1
  nodup : (o.items.map (·.name)).Nodup

structure Inv (o : JsonObject) : Prop extends Arrays o where
  linked : Linked none o.cells o.items
  probed : Probed o.cells.length o.home

def JsonObject.members (o : JsonObject) : Object := o.items.map fun item => (item.name.1, item.value)

/-- Arrays of 2^32 cells are not allocated. -/
def Memory.Bounded (memory : Memory) : Prop := ∀ capacity, memory.arrays capacity → capacity < 2 ^ 32

-- ---------------------------------------------------------------------------
-- Sizes
-- ---------------------------------------------------------------------------

theorem and_mask (h : Capacity n room) (hpos : 0 < n) (x : Nat) : x &&& mask n = x % n := by
  cases h with
  | empty => contradiction
  | cells k _ hmax =>
    have hle : 2 ^ k < 2 ^ 32 := Nat.pow_lt_pow_right (by decide) hmax
    have hmask : mask (2 ^ k) = 2 ^ k - 1 := by
      unfold mask
      omega
    rw [hmask, Nat.and_two_pow_sub_one_eq_mod]

theorem Capacity.room_lt (h : Capacity n room) (hpos : 0 < n) : room < n := by
  cases h <;> omega

theorem Capacity.pos (h : Capacity n room) (hroom : 0 < room) : 0 < n := by
  cases h with
  | empty => contradiction
  | cells k => exact Nat.two_pow_pos k

-- ---------------------------------------------------------------------------
-- Cells and items
-- ---------------------------------------------------------------------------

section
variable {i : Option Nat} {cells : Table Nat} {items : List Item} {item : Item} {c p : Nat}

theorem slot_lt (h : slot cells p = some c) : p < cells.length := by
  by_contra hge
  simp [slot, List.getElem?_eq_none (Nat.le_of_not_lt hge)] at h

theorem getElem?_of_slot (h : slot cells p = some c) : cells[p]? = some (some c) := Option.join_eq_some_iff.mp h

theorem getElem?_of_free (hp : p < cells.length) (h : slot cells p = none) : cells[p]? = some none := by
  rw [slot, List.getElem?_eq_getElem hp] at h
  rw [List.getElem?_eq_getElem hp]
  exact congrArg some h

theorem slot_replicate (n p : Nat) : slot (.replicate n none) p = (none : Option Nat) := by
  unfold slot
  rw [List.getElem?_replicate]
  split <;> rfl

theorem slot_set (hp : p < cells.length) (v : Option Nat) : slot (cells.set p v) = Function.update (slot cells) p v := by
  funext q
  unfold slot
  rw [List.getElem?_set]
  by_cases hq : q = p
  · simp [hq, hp]
  · simp [hq, Ne.symm hq]

theorem Linked.slot_eq (h : Linked i cells items) (hitem : items[c]? = some item) :
    slot cells item.cellIx = some c :=
  ((h c item.cellIx).mp (by rw [hitem]; rfl)).2

theorem Linked.item_eq (h : Linked i cells items) (hne : some p ≠ i) (hslot : slot cells p = some c) :
    ∃ item, items[c]? = some item ∧ item.cellIx = p := by
  simpa using (h c p).mpr ⟨hne, hslot⟩

end

variable {o : JsonObject} {item : Item} {name : CStr} {c p : Nat}

theorem Linked.home_isSome (h : Linked none o.cells o.items) : (o.home p).isSome = (slot o.cells p).isSome := by
  unfold JsonObject.home
  cases hslot : slot o.cells p with
  | none => rfl
  | some c =>
    obtain ⟨item, hitem, -⟩ := h.item_eq (by simp) hslot
    simp [hitem]

theorem Inv.home_eq (hinv : Inv o) (hitem : o.items[c]? = some item) :
    o.home item.cellIx = some (o.homeOf item.name) := by
  have hhash := hinv.hashes item (List.mem_of_getElem? hitem)
  simp [JsonObject.home, JsonObject.homeOf, hinv.linked.slot_eq hitem, hitem, hhash]

theorem Inv.index_eq {item' : Item} (hinv : Inv o) (h : o.items[c]? = some item) (h' : o.items[c']? = some item')
    (hname : item.name = item'.name) : c = c' := by
  obtain ⟨hlt, -⟩ := List.getElem?_eq_some_iff.mp h
  exact (List.getElem?_inj (by simpa using hlt) hinv.nodup).mp (by simp [h, h', hname])

theorem Inv.exists_free (hinv : Inv o) (hpos : 0 < o.cells.length) : ∃ e < o.cells.length, slot o.cells e = none := by
  by_contra hfull
  push Not at hfull
  have hlt := hinv.capacity.room_lt hpos
  have hroom := hinv.room
  have hcard : (Finset.range o.cells.length).card ≤ (Finset.range o.items.length).card := by
    refine Finset.card_le_card_of_injOn (fun p => (slot o.cells p).getD 0) ?_ ?_
    · intro p hp
      obtain ⟨c, hc⟩ := Option.ne_none_iff_exists'.mp (hfull p (Finset.mem_range.mp hp))
      obtain ⟨item, hitem, -⟩ := hinv.linked.item_eq (by simp) hc
      obtain ⟨hlen, -⟩ := List.getElem?_eq_some_iff.mp hitem
      simpa [hc] using hlen
    · intro p hp q hq hsame
      obtain ⟨c, hc⟩ := Option.ne_none_iff_exists'.mp (hfull p (Finset.mem_range.mp hp))
      obtain ⟨d, hd⟩ := Option.ne_none_iff_exists'.mp (hfull q (Finset.mem_range.mp hq))
      simp only [hc, hd, Option.getD_some] at hsame
      subst hsame
      obtain ⟨item, hitem, rfl⟩ := hinv.linked.item_eq (by simp) hc
      obtain ⟨item', hitem', rfl⟩ := hinv.linked.item_eq (by simp) hd
      rw [hitem] at hitem'
      cases hitem'
      rfl
  simp only [Finset.card_range] at hcard
  omega

-- ---------------------------------------------------------------------------
-- The search for a name
-- ---------------------------------------------------------------------------

def Other (o : JsonObject) (name : CStr) (p : Nat) : Prop :=
  ∃ c item, slot o.cells p = some c ∧ o.items[c]? = some item ∧ item.name ≠ name

theorem probe_skip (name : CStr) (hash : UInt64) (start m left i : Nat)
    (h : ∀ e < m, Other o name ((start + (i + e)) &&& mask o.cells.length)) :
    probe o name hash start (left + m) i = probe o name hash start left (i + m) := by
  induction m generalizing i with
  | zero => rfl
  | succ m ih =>
    obtain ⟨c, item, hslot, hitem, hname⟩ := h 0 (Nat.succ_pos m)
    rw [Nat.add_zero] at hslot
    have hrest := ih (i + 1) fun e he => by
      have hother := h (e + 1) (by omega)
      rwa [show i + (e + 1) = i + 1 + e by omega] at hother
    rw [show i + (m + 1) = i + 1 + m by omega, ← hrest, show left + (m + 1) = left + m + 1 by omega, probe]
    simp only [getElem?_of_slot hslot, hitem, if_neg hname, ite_self]

theorem getCellIx_walk (name : CStr) (hcap : Capacity o.cells.length room) (hp : p < o.cells.length)
    (hway : ∀ q < o.cells.length,
      steps o.cells.length (o.homeOf name) q < steps o.cells.length (o.homeOf name) p → Other o name q) :
    ∃ left, (o.homeOf name + steps o.cells.length (o.homeOf name) p) &&& mask o.cells.length = p ∧
      objectGetCellIx o name (hashString name.1) = probe o name (hashString name.1) (o.homeOf name) (left + 1)
        (steps o.cells.length (o.homeOf name) p) := by
  have hpos : 0 < o.cells.length := Nat.zero_lt_of_lt hp
  have hstart : o.homeOf name < o.cells.length := Nat.mod_lt _ hpos
  have hsteps := steps_lt hstart hp
  obtain ⟨left, hleft⟩ := Nat.exists_eq_add_of_lt hsteps
  have hskip := probe_skip name (hashString name.1) (o.homeOf name)
    (steps o.cells.length (o.homeOf name) p) (left + 1) 0 fun e he => by
      rw [Nat.zero_add, and_mask hcap hpos]
      refine hway _ (Nat.mod_lt _ hpos) ?_
      rwa [steps_walk hstart (he.trans hsteps)]
  refine ⟨left, ?_, ?_⟩
  · rw [and_mask hcap hpos]
    exact walk_steps hstart hp
  · rw [objectGetCellIx, and_mask hcap hpos, ← Nat.zero_add (steps _ _ _), ← hskip]
    congr 1
    omega

theorem Inv.getCellIx_known (hinv : Inv o) (hitem : o.items[c]? = some item) :
    objectGetCellIx o item.name (hashString item.name.1) = some (some item.cellIx, true) := by
  have hslot := hinv.linked.slot_eq hitem
  have hp := slot_lt hslot
  obtain ⟨left, hix, hwalk⟩ := getCellIx_walk item.name hinv.capacity hp fun q hq hlt => by
    have hsome := hinv.probed.way _ hp _ (hinv.home_eq hitem) q hq hlt
    rw [hinv.linked.home_isSome, Option.isSome_iff_exists] at hsome
    obtain ⟨d, hd⟩ := hsome
    obtain ⟨other, hother, rfl⟩ := hinv.linked.item_eq (by simp) hd
    refine ⟨d, other, hd, hother, fun hname => ?_⟩
    have hsame := hinv.index_eq hother hitem hname
    subst hsame
    rw [hother] at hitem
    cases hitem
    exact absurd hlt (Nat.lt_irrefl _)
  rw [hwalk, probe]
  simp [hix, getElem?_of_slot hslot, hitem, hinv.hashes item (List.mem_of_getElem? hitem)]

theorem Inv.getCellIx_unknown (hinv : Inv o) (hname : name ∉ o.items.map (·.name)) (hpos : 0 < o.cells.length) :
    ∃ p < o.cells.length, slot o.cells p = none ∧
      objectGetCellIx o name (hashString name.1) = some (some p, false) ∧
      ∀ q < o.cells.length, steps o.cells.length (o.homeOf name) q < steps o.cells.length (o.homeOf name) p →
        (o.home q).isSome := by
  have hfree : ∃ e < o.cells.length, o.home e = none := by
    obtain ⟨e, he, hnone⟩ := hinv.exists_free hpos
    exact ⟨e, he, by simp [JsonObject.home, hnone]⟩
  obtain ⟨p, hp, hnone, hway⟩ := exists_first_free hfree (o.homeOf name)
  have hslot : slot o.cells p = none := by
    rw [← Option.not_isSome_iff_eq_none, ← hinv.linked.home_isSome, hnone]
    exact Bool.false_ne_true
  obtain ⟨left, hix, hwalk⟩ := getCellIx_walk name hinv.capacity hp fun q hq hlt => by
    have hsome := hway q hq hlt
    rw [hinv.linked.home_isSome, Option.isSome_iff_exists] at hsome
    obtain ⟨d, hd⟩ := hsome
    obtain ⟨other, hother, -⟩ := hinv.linked.item_eq (by simp) hd
    refine ⟨d, other, hd, hother, fun hsame => hname ?_⟩
    exact hsame ▸ List.mem_map_of_mem (List.mem_of_getElem? hother)
  refine ⟨p, hp, hslot, ?_, hway⟩
  rw [hwalk, probe]
  simp [hix, getElem?_of_free hp hslot]

theorem Inv.getCellIx_false (hinv : Inv o) (hname : name ∉ o.items.map (·.name)) :
    ∃ cellIx, objectGetCellIx o name (hashString name.1) = some (cellIx, false) := by
  rcases Nat.eq_zero_or_pos o.cells.length with hzero | hpos
  · exact ⟨none, by rw [objectGetCellIx, hzero, probe]⟩
  · obtain ⟨p, -, -, hcell, -⟩ := hinv.getCellIx_unknown hname hpos
    exact ⟨_, hcell⟩

-- ---------------------------------------------------------------------------
-- One more member
-- ---------------------------------------------------------------------------

theorem home_store (hinv : Inv o) (hp : p < o.cells.length) (item : Item) :
    JsonObject.home { o with
        cells := o.cells.set p (some o.items.length)
        items := o.items ++ [item] } =
      Function.update o.home p (some (item.hash.toNat % o.cells.length)) := by
  funext q
  unfold JsonObject.home
  simp only [slot_set hp, List.length_set]
  by_cases hq : q = p
  · simp [hq]
  · rw [Function.update_of_ne hq, Function.update_of_ne hq]
    cases hslot : slot o.cells q with
    | none => rfl
    | some c =>
      obtain ⟨other, hother, -⟩ := hinv.linked.item_eq (by simp) hslot
      obtain ⟨hlt, -⟩ := List.getElem?_eq_some_iff.mp hother
      simp [List.getElem?_append_left hlt]

theorem linked_store (hinv : Inv o) (hp : p < o.cells.length) (hfree : slot o.cells p = none) (item : Item)
    (hitem : item.cellIx = p) : Linked none (o.cells.set p (some o.items.length)) (o.items ++ [item]) := by
  intro c q
  rw [slot_set hp, Function.update_apply, List.getElem?_append]
  have hold := hinv.linked c q
  by_cases hc : c < o.items.length
  · rw [if_pos hc, hold]
    by_cases hq : q = p
    · subst hq
      simp [hfree, hc.ne']
    · simp [hq]
  · rw [if_neg hc]
    have hnone : o.items[c]? = none := List.getElem?_eq_none (Nat.le_of_not_lt hc)
    rw [hnone] at hold
    by_cases hlast : c = o.items.length
    · subst hlast
      by_cases hq : q = p
      · simp [hq, hitem]
      · have hother : slot o.cells q ≠ some o.items.length := by simpa using hold
        simp [hq, hitem, Ne.symm hq, hother]
    · have hother : slot o.cells q ≠ some c := by simpa using hold
      have hbeyond : [item][c - o.items.length]? = none := List.getElem?_eq_none (by simp; omega)
      rw [hbeyond]
      by_cases hq : q = p
      · simp [hq, Ne.symm hlast]
      · simp [hq, hother]

/-- The object has one member more. -/
structure Stored (o : JsonObject) (name : CStr) (value : Value) (o' : JsonObject) : Prop where
  inv : Inv o'
  members : o'.members = o.members ++ [(name.1, value)]
  names : o'.items.map (·.name) = o.items.map (·.name) ++ [name]
  itemCapacity : o'.itemCapacity = o.itemCapacity

theorem Inv.store (hinv : Inv o) (hname : name ∉ o.items.map (·.name)) (hroom : o.items.length < o.itemCapacity) :
    ∃ p, objectGetCellIx o name (hashString name.1) = some (some p, false) ∧
      ∀ value, ∃ o', o.store name value (hashString name.1) (some p) = some o' ∧ Stored o name value o' := by
  have hpos := hinv.capacity.pos (Nat.zero_lt_of_lt hroom)
  obtain ⟨p, hp, hfree, hcell, hway⟩ := hinv.getCellIx_unknown hname hpos
  refine ⟨p, hcell, fun value => ⟨_, if_pos ⟨hp, hroom⟩, ?_, by simp [JsonObject.members], by simp, rfl⟩⟩
  refine ⟨⟨?_, ?_, ?_, ?_⟩, linked_store hinv hp hfree _ rfl, ?_⟩
  · simpa using hinv.capacity
  · simpa using hroom
  · intro item hitem
    rcases List.mem_append.mp hitem with hold | hnew
    · exact hinv.hashes item hold
    · rw [List.mem_singleton.mp hnew]
  · rw [List.map_append, List.map_cons, List.map_nil]
    refine List.nodup_append.mpr ⟨hinv.nodup, by simp, fun a ha b hb hsame => hname ?_⟩
    rwa [hsame, List.mem_singleton.mp hb] at ha
  · rw [home_store hinv hp]
    simpa using hinv.probed.insert (Nat.mod_lt _ hpos) hway

theorem Inv.addWith_known (hinv : Inv o) (hitem : item ∈ o.items) (grow : JsonObject → Option (Option JsonObject))
    (value : Value) : addWith o grow item.name value = some (o, false) := by
  obtain ⟨c, hc⟩ := List.mem_iff_getElem?.mp hitem
  rw [addWith, hinv.getCellIx_known hc]

theorem Inv.addWith_room (hinv : Inv o) (hname : name ∉ o.items.map (·.name))
    (hroom : o.items.length < o.itemCapacity) (grow : JsonObject → Option (Option JsonObject)) (value : Value) :
    ∃ o', addWith o grow name value = some (o', true) ∧ Stored o name value o' := by
  obtain ⟨p, hcell, hstore⟩ := hinv.store hname hroom
  obtain ⟨o', hstored, ho⟩ := hstore value
  exact ⟨o', by simp [addWith, hcell, makeRoom, Nat.not_le.mpr hroom, hstored], ho⟩

-- ---------------------------------------------------------------------------
-- Growing
-- ---------------------------------------------------------------------------

theorem rehash_room (grow : JsonObject → Option (Option JsonObject)) (items : List Item) {new : JsonObject}
    (hinv : Inv new) (hnodup : (new.items.map (·.name) ++ items.map (·.name)).Nodup)
    (hroom : new.items.length + items.length ≤ new.itemCapacity) :
    ∃ o', rehash grow items new = some (some o') ∧ Inv o' ∧
      o'.members = new.members ++ items.map (fun item => (item.name.1, item.value)) ∧
      o'.items.map (·.name) = new.items.map (·.name) ++ items.map (·.name) ∧ o'.itemCapacity = new.itemCapacity := by
  induction items generalizing new with
  | nil => exact ⟨new, rfl, hinv, by simp, by simp, rfl⟩
  | cons item items ih =>
    rw [List.length_cons] at hroom
    have hname : item.name ∉ new.items.map (·.name) := fun hmem =>
      (List.nodup_append.mp hnodup).2.2 _ hmem _ List.mem_cons_self rfl
    obtain ⟨o₁, hadd, hone⟩ := hinv.addWith_room hname (by omega) grow item.value
    have hlength : o₁.items.length = new.items.length + 1 := by
      simpa using congrArg List.length hone.names
    obtain ⟨o', hrest, hinv', hmembers, hnames, hcapacity⟩ := ih hone.inv
      (by simpa [hone.names] using hnodup) (by rw [hlength, hone.itemCapacity]; omega)
    refine ⟨o', by rw [rehash, hadd]; exact hrest, hinv', ?_, ?_, hcapacity.trans hone.itemCapacity⟩
    · simp [hmembers, hone.members]
    · simp [hnames, hone.names]

theorem inv_replicate (h : Capacity n room) : Inv ⟨.replicate n none, [], room⟩ where
  capacity := by simpa using h
  room := Nat.zero_le _
  linked c p := by simp [slot_replicate]
  hashes _ hitem := nomatch hitem
  nodup := List.nodup_nil
  probed := by
    have hnone : JsonObject.home ⟨.replicate n none, [], room⟩ = fun _ => none := by
      funext p
      simp [JsonObject.home, slot_replicate]
    rw [hnone]
    exact probed_empty _

structure Roomy (o o' : JsonObject) : Prop where
  inv : Inv o'
  members : o'.members = o.members
  names : o'.items.map (·.name) = o.items.map (·.name)
  room : o'.items.length < o'.itemCapacity

theorem Capacity.next (h : Capacity n room) (hlt : max (n * 2) startingCapacity < 2 ^ 32) :
    Capacity (max (n * 2) startingCapacity) (max (n * 2) startingCapacity * 7 / 10) ∧
      room < max (n * 2) startingCapacity * 7 / 10 := by
  unfold startingCapacity at *
  cases h with
  | empty => exact ⟨.cells 4 (Nat.le_refl 4) (by decide), by decide⟩
  | cells k hmin hmax =>
    have hle : 2 ^ 4 ≤ 2 ^ k := Nat.pow_le_pow_right (by decide) hmin
    have hmaximum : max (2 ^ k * 2) 16 = 2 ^ (k + 1) := by
      rw [pow_succ]
      omega
    rw [hmaximum] at hlt ⊢
    refine ⟨.cells (k + 1) (by omega) ?_, by rw [pow_succ]; omega⟩
    exact (Nat.pow_lt_pow_iff_right (by decide)).mp hlt

theorem Capacity.next_le (h : Capacity n room) (hle : room ≤ count) :
    max (n * 2) startingCapacity ≤ 3 * count + 16 := by
  unfold startingCapacity
  cases h <;> omega

theorem Inv.grow (hinv : Inv o) {memory : Memory} (hmemory : memory.Bounded) (fuel : Nat) :
    (memory.arrays (max (o.cells.length * 2) startingCapacity) = false ∧
        objectGrowAndRehash memory (fuel + 1) o = some none) ∨
      ∃ o', objectGrowAndRehash memory (fuel + 1) o = some (some o') ∧ Roomy o o' := by
  have hne : max (o.cells.length * 2) startingCapacity ≠ 0 := by
    unfold startingCapacity
    omega
  cases harrays : memory.arrays (max (o.cells.length * 2) startingCapacity) with
  | false => exact .inl ⟨rfl, by simp [objectGrowAndRehash, objectInit, hne, harrays]⟩
  | true =>
    have hlt := hmemory _ harrays
    obtain ⟨hcapacity, hmore⟩ := hinv.capacity.next hlt
    have hinit : objectInit memory (max (o.cells.length * 2) startingCapacity) =
        some (some ⟨.replicate (max (o.cells.length * 2) startingCapacity) none, [],
          max (o.cells.length * 2) startingCapacity * 7 / 10⟩) := by
      rw [objectInit, if_neg hne, harrays, if_neg (by decide), if_neg (Nat.not_le.mpr hlt)]
    have hroom := hinv.room
    obtain ⟨o', hrehash, hinv', hmembers, hnames, hsame⟩ := rehash_room (objectGrowAndRehash memory fuel) o.items
      (inv_replicate hcapacity) (by simpa using hinv.nodup) (by simp; omega)
    refine .inr ⟨o', by rw [objectGrowAndRehash, hinit]; exact hrehash, hinv', hmembers, hnames, ?_⟩
    have hlength : o'.items.length = o.items.length := by simpa using congrArg List.length hnames
    rw [hlength, hsame]
    exact Nat.lt_of_le_of_lt hroom hmore

end GeoNS.Parson.HashTable
