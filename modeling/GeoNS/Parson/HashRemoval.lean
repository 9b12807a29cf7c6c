import GeoNS.Parson.HashSearch

/-!
# The removal of a member

The cell of the member becomes free. The items behind it whose way leads over the cell
are moved, one after the other, and are found as before.
-/

namespace GeoNS.Parson.HashTable

open CString SlotTable Probing

def swapOut {α : Type} (l : List α) (c : Nat) : List α := l.getLast?.elim [] (l.dropLast.set c)

variable {o : JsonObject} {item : Item} {name : CStr} {c p : Nat}

/-- The object without the item of cell `i`, while the cells are looked at up to `j`. -/
structure Closing (o : JsonObject) (i j : Nat) : Prop extends Arrays o where
  linked : Linked (some i) o.cells o.items
  hole : Hole o.cells.length o.home i j
  lt : i < o.cells.length ∧ j < o.cells.length

/-- What the loop asks is whether the way of the item leads over `i`. -/
theorem crosses_iff {n i j k : Nat} (hi : i < n) (hj : j < n) (hk : k < n) (hne : j ≠ i) :
    ((j > i && (k ≤ i || k > j)) || (j < i && (k ≤ i && k > j))) = true ↔ steps n k i < steps n k j := by
  unfold steps
  grind

theorem Closing.close {i j : Nat} (hclosing : Closing o i j) (hne : (j + 1) % o.cells.length ≠ i)
    (hfree : slot o.cells ((j + 1) % o.cells.length) = none) : Inv { o with cells := o.cells.set i none } where
  capacity := by simpa using hclosing.capacity
  room := hclosing.room
  linked c p := by
    rw [hclosing.linked c p, slot_set hclosing.lt.1, Function.update_apply]
    by_cases hp : p = i <;> simp [hp]
  hashes := hclosing.hashes
  nodup := hclosing.nodup
  probed := by
    have hhome : JsonObject.home { o with cells := o.cells.set i none } = Function.update o.home i none := by
      funext p
      unfold JsonObject.home
      simp only [slot_set hclosing.lt.1, List.length_set]
      by_cases hp : p = i
      · simp [hp]
      · rw [Function.update_of_ne hp, Function.update_of_ne hp]
    rw [hhome, List.length_set]
    exact hclosing.hole.close hclosing.lt.1 hclosing.lt.2 hne (by simp [JsonObject.home, hfree])

section
variable {i j cell h : Nat}

theorem Closing.home_lt (hclosing : Closing o i j) (hhome : o.home p = some h) : h < o.cells.length :=
  hclosing.hole.home_lt p h hhome

theorem linked_move (hlinked : Linked (some i) o.cells o.items) (hi : i < o.cells.length) (hne : p ≠ i)
    (hslot : slot o.cells p = some cell) (hitem : o.items[cell]? = some item) :
    Linked (some p) (o.cells.set i (some cell)) (o.items.set cell { item with cellIx := i }) := by
  intro c q
  obtain ⟨hlt, -⟩ := List.getElem?_eq_some_iff.mp hitem
  rw [slot_set hi, Function.update_apply, List.getElem?_set]
  have hold := hlinked c q
  by_cases hc : cell = c
  · -- the item that goes to `i`, which was in cell `p`
    subst hc
    obtain ⟨item', hitem', hcell⟩ := hlinked.item_eq (by simpa using hne) hslot
    have hat : slot o.cells q = some cell → q ≠ i → q = p := fun hq hqi => by
      obtain ⟨other, hother, rfl⟩ := hlinked.item_eq (by simpa using hqi) hq
      rw [hitem'] at hother
      cases hother
      exact hcell
    by_cases hqi : q = i
    · simp [hqi, hlt, Ne.symm hne]
    · simp only [hlt, if_true, Option.map_some, Option.some.injEq, hqi, if_false]
      constructor
      · exact fun hsame => absurd hsame.symm hqi
      · rintro ⟨hqp, hq⟩
        exact absurd (hat hq hqi) (by simpa using hqp)
  · rw [if_neg hc, hold]
    by_cases hqi : q = i
    · simp [hqi, hc]
    · by_cases hqp : q = p
      · simp [hqp, hslot, hc]
      · simp [hqi, hqp]

theorem map_move {β : Type} (f : Item → β) (hf : f { item with cellIx := i } = f item)
    (hitem : o.items[cell]? = some item) : (o.items.set cell { item with cellIx := i }).map f = o.items.map f := by
  have hget : (o.items.map f)[cell]? = some (f item) := by rw [List.getElem?_map, hitem]; rfl
  obtain ⟨hlt, hsame⟩ := List.getElem?_eq_some_iff.mp hget
  rw [List.map_set, hf, ← hsame, List.set_getElem_self]

theorem home_move (hi : i < o.cells.length) (hitem : o.items[cell]? = some item) :
    JsonObject.home { o with
        cells := o.cells.set i (some cell)
        items := o.items.set cell { item with cellIx := i } } =
      Function.update o.home i (some (item.hash.toNat % o.cells.length)) := by
  funext q
  have hkept (c : Nat) : (o.items.set cell { item with cellIx := i })[c]?.map
      (fun item => item.hash.toNat % o.cells.length) =
        o.items[c]?.map fun item => item.hash.toNat % o.cells.length := by
    rw [← List.getElem?_map, map_move (i := i) _ rfl hitem, List.getElem?_map]
  unfold JsonObject.home
  simp only [slot_set hi, List.length_set, hkept]
  by_cases hq : q = i
  · simp [hq, hitem]
  · rw [Function.update_of_ne hq, Function.update_of_ne hq]

theorem Closing.move (hclosing : Closing o i j) (hne : (j + 1) % o.cells.length ≠ i)
    (hslot : slot o.cells ((j + 1) % o.cells.length) = some cell) (hitem : o.items[cell]? = some item)
    (hover : steps o.cells.length (item.hash.toNat % o.cells.length) i <
      steps o.cells.length (item.hash.toNat % o.cells.length) ((j + 1) % o.cells.length)) :
    Closing { o with
      cells := o.cells.set i (some cell)
      items := o.items.set cell { item with cellIx := i } }
      ((j + 1) % o.cells.length) ((j + 1) % o.cells.length) where
  capacity := by simpa using hclosing.capacity
  room := by simpa using hclosing.room
  linked := linked_move hclosing.linked hclosing.lt.1 hne hslot hitem
  hashes other hother := by
    rcases List.mem_or_eq_of_mem_set hother with hold | rfl
    · exact hclosing.hashes other hold
    · exact hclosing.hashes item (List.mem_of_getElem? hitem)
  nodup := by
    dsimp only
    rw [map_move (i := i) _ rfl hitem]
    exact hclosing.nodup
  hole := by
    rw [home_move hclosing.lt.1 hitem, List.length_set]
    exact hclosing.hole.move hclosing.lt.2 hne (by simp [JsonObject.home, hslot, hitem]) hover
  lt := by simpa using Nat.mod_lt _ (Nat.zero_lt_of_lt hclosing.lt.1)

theorem Closing.closeUp {e : Nat} (left : Nat) (hclosing : Closing o i j) (he : e < o.cells.length)
    (hfree : slot o.cells e = none) (hbefore : steps o.cells.length i j < steps o.cells.length i e)
    (hleft : steps o.cells.length j e ≤ left) :
    ∃ o', o.closeUp left i j = some o' ∧ Inv o' ∧ o'.members = o.members := by
  induction left generalizing o i j with
  | zero =>
    have hpos : 0 < steps o.cells.length j e := steps_pos hclosing.lt.2 fun hsame => by
      rw [hsame] at hbefore
      exact Nat.lt_irrefl _ hbefore
    omega
  | succ left ih =>
    obtain ⟨hi, hj⟩ := hclosing.lt
    have hpos := Nat.zero_lt_of_lt hi
    have hne := next_ne_of_lt hi hj he hbefore
    have hnext : (j + 1) % o.cells.length < o.cells.length := Nat.mod_lt _ hpos
    have hje : j ≠ e := fun hsame => Nat.lt_irrefl _ (hsame ▸ hbefore)
    have hless := steps_of_next hj he hje
    rw [JsonObject.closeUp]
    simp only [and_mask hclosing.capacity hpos]
    cases hslot : slot o.cells ((j + 1) % o.cells.length) with
    | none =>
      rw [getElem?_of_free hnext hslot]
      exact ⟨_, rfl, hclosing.close hne hslot, rfl⟩
    | some cell =>
      obtain ⟨item, hitem, -⟩ := hclosing.linked.item_eq (by simpa using hne) hslot
      have hhome : o.home ((j + 1) % o.cells.length) = some (item.hash.toNat % o.cells.length) := by
        simp [JsonObject.home, hslot, hitem]
      have hother : (j + 1) % o.cells.length ≠ e := by
        rintro rfl
        rw [hfree] at hslot
        contradiction
      have hei : e ≠ i := by
        rintro rfl
        simp at hbefore
      rw [getElem?_of_slot hslot]
      simp only [hitem]
      split
      · rename_i hcross
        have hover := (crosses_iff hi hnext (hclosing.home_lt hhome) hne).mp hcross
        have hmoved := ih (hclosing.move hne hslot hitem hover) (by simpa using he)
          (by rw [slot_set hi, Function.update_of_ne hei]; exact hfree)
          (by simpa using steps_pos hnext hother) (by simp only [List.length_set]; omega)
        obtain ⟨o', hdone, hinv, hmembers⟩ := hmoved
        exact ⟨o', hdone, hinv, hmembers.trans (map_move _ rfl hitem)⟩
      · rename_i hcross
        have hover := fun hlt => hcross ((crosses_iff hi hnext (hclosing.home_lt hhome) hne).mpr hlt)
        refine ih ⟨hclosing.toArrays, hclosing.linked, hclosing.hole.stay hi hj hne hhome hover, hi, hnext⟩
          he hfree ?_ (by omega)
        have hone := steps_next hi hj hne
        have hdiff : steps o.cells.length i ((j + 1) % o.cells.length) ≠ steps o.cells.length i e :=
          fun hsame => hother (steps_inj hi hnext he hsame)
        omega

end

section
variable {α β : Type} {l init : List α} {a last : α}

theorem swapOut_concat (init : List α) (last : α) (c : Nat) : swapOut (init ++ [last]) c = init.set c last := by
  simp [swapOut]

theorem map_swapOut (f : α → β) (l : List α) (c : Nat) : (swapOut l c).map f = swapOut (l.map f) c := by
  rcases List.eq_nil_or_concat' l with rfl | ⟨init, last, rfl⟩
  · rfl
  · simp [swapOut_concat, List.map_set]

theorem perm_swapOut (h : l[c]? = some a) : l.Perm (a :: swapOut l c) := by
  rcases List.eq_nil_or_concat' l with rfl | ⟨init, last, rfl⟩
  · contradiction
  rw [swapOut_concat]
  rw [List.getElem?_append] at h
  split at h
  · rename_i hlt
    rw [← (List.getElem?_eq_some_iff.mp h).2]
    calc List.Perm (init ++ [last]) (last :: init) := List.perm_append_singleton last init
      _ |>.Perm (last :: init[c] :: init.eraseIdx c) := ((List.getElem_cons_eraseIdx_perm hlt).symm).cons last
      _ |>.Perm (init[c] :: last :: init.eraseIdx c) := List.Perm.swap ..
      _ |>.Perm (init[c] :: init.set c last) := ((List.set_perm_cons_eraseIdx hlt last).symm).cons _
  · rename_i hge
    rw [List.getElem?_singleton] at h
    split at h
    · cases h
      rw [List.set_eq_of_length_le (Nat.le_of_not_lt hge)]
      exact List.perm_append_singleton a init
    · contradiction

end

theorem home_eq_some_iff {i : Option Nat} {h : Nat} (hlinked : Linked i o.cells o.items) (hne : some p ≠ i) :
    o.home p = some h ↔ ∃ item ∈ o.items, item.cellIx = p ∧ item.hash.toNat % o.cells.length = h := by
  constructor
  · intro hhome
    obtain ⟨c, hslot, hmap⟩ := Option.bind_eq_some_iff.mp hhome
    obtain ⟨item, hitem, hcell⟩ := hlinked.item_eq hne hslot
    rw [hitem] at hmap
    exact ⟨item, List.mem_of_getElem? hitem, hcell, Option.some.inj hmap⟩
  · rintro ⟨item, hmem, rfl, rfl⟩
    obtain ⟨c, hitem⟩ := List.mem_iff_getElem?.mp hmem
    simp [JsonObject.home, hlinked.slot_eq hitem, hitem]

theorem linked_dropLast {cells : Table Nat} {init : List Item} {last : Item}
    (h : Linked none cells (init ++ [last])) : Linked (some last.cellIx) cells init := by
  intro c p
  have hold := h c p
  have hlast := (h init.length last.cellIx).mp (by simp)
  rw [List.getElem?_append] at hold
  grind

theorem linked_swap {cells : Table Nat} {init : List Item} {last : Item}
    (h : Linked none cells (init ++ [last])) (hitem : init[c]? = some item) :
    Linked (some item.cellIx) (cells.set last.cellIx (some c)) (init.set c last) := by
  intro d p
  have hold := h d p
  have hlast := (h init.length last.cellIx).mp (by simp)
  have hgone := (h c item.cellIx).mp (by rw [List.getElem?_append, hitem]; grind)
  have hlt := slot_lt hlast.2
  rw [slot_set hlt, Function.update_apply, List.getElem?_set]
  rw [List.getElem?_append] at hold
  grind

theorem Inv.closing (hinv : Inv o) (hitem : o.items[c]? = some item) {cells : Table Nat}
    (hlength : cells.length = o.cells.length) (hlinked : Linked (some item.cellIx) cells (swapOut o.items c)) :
    Closing { o with cells, items := swapOut o.items c } item.cellIx item.cellIx := by
  have hcell := slot_lt (hinv.linked.slot_eq hitem)
  have hperm := perm_swapOut hitem
  have hroom : (swapOut o.items c).length + 1 = o.items.length := hperm.length_eq.symm
  have hsame (p : Nat) (hp : p ≠ item.cellIx) :
      JsonObject.home { o with cells, items := swapOut o.items c } p = o.home p := by
    refine Option.ext fun h => ?_
    rw [home_eq_some_iff hlinked (by simpa using hp), home_eq_some_iff hinv.linked (by simp)]
    dsimp only
    rw [hlength]
    constructor
    · rintro ⟨other, hother, hwhere⟩
      exact ⟨other, hperm.mem_iff.mpr (List.mem_cons_of_mem _ hother), hwhere⟩
    · rintro ⟨other, hother, hat, hwhere⟩
      rcases List.mem_cons.mp (hperm.mem_iff.mp hother) with rfl | hmem
      · exact absurd hat.symm hp
      · exact ⟨other, hmem, hat, hwhere⟩
  refine ⟨⟨?_, ?_, ?_, ?_⟩, hlinked, ?_, ?_⟩
  · simpa [hlength] using hinv.capacity
  · have hle := hinv.room
    exact (by omega : (swapOut o.items c).length ≤ o.itemCapacity)
  · exact fun other hother => hinv.hashes other (hperm.mem_iff.mpr (List.mem_cons_of_mem _ hother))
  · exact (List.nodup_cons.mp ((hperm.map (·.name)).nodup_iff.mp hinv.nodup)).2
  · dsimp only
    rw [hlength]
    refine (hinv.probed.hole hcell).congr hsame fun h hh => ?_
    obtain ⟨d, -, hd⟩ := Option.bind_eq_some_iff.mp hh
    obtain ⟨other, -, rfl⟩ := Option.map_eq_some_iff.mp hd
    simpa [hlength] using Nat.mod_lt _ (Nat.zero_lt_of_lt hcell)
  · simpa [hlength] using hcell

theorem Inv.dropItem (hinv : Inv o) (hitem : o.items[c]? = some item) :
    ∃ cells, o.dropItem c = some { o with cells, items := swapOut o.items c } ∧
      cells.length = o.cells.length ∧ Linked (some item.cellIx) cells (swapOut o.items c) ∧
      ∀ p, slot o.cells p = none → slot cells p = none := by
  rcases List.eq_nil_or_concat' o.items with hnil | ⟨init, last, hitems⟩
  · simp [hnil] at hitem
  have hlinked := hinv.linked
  rw [hitems] at hlinked hitem
  rw [hitems, swapOut_concat]
  rw [List.getElem?_append] at hitem
  split at hitem
  · rename_i hlt
    have hslot : slot o.cells last.cellIx = some init.length := hlinked.slot_eq (by simp)
    have hlast := slot_lt hslot
    refine ⟨o.cells.set last.cellIx (some c), ?_, List.length_set, linked_swap hlinked hitem, fun p hp => ?_⟩
    · simp [JsonObject.dropItem, hitems, hlt, hlast, List.set_append_left]
    · have hne : p ≠ last.cellIx := by
        rintro rfl
        simp [hslot] at hp
      rw [slot_set hlast, Function.update_of_ne hne, hp]
  · rename_i hge
    rw [List.getElem?_singleton] at hitem
    split at hitem
    · cases hitem
      rw [List.set_eq_of_length_le (Nat.le_of_not_lt hge)]
      exact ⟨o.cells, by simp [JsonObject.dropItem, hitems, hge], rfl, linked_dropLast hlinked, fun _ hp => hp⟩
    · contradiction

theorem Inv.remove (hinv : Inv o) (hitem : o.items[c]? = some item) :
    ∃ o', objectRemoveInternal o item.name = some (o', true) ∧ Inv o' ∧ o'.members = swapOut o.members c := by
  have hslot := hinv.linked.slot_eq hitem
  have hcell := slot_lt hslot
  obtain ⟨e, he, hfree⟩ := hinv.exists_free (Nat.zero_lt_of_lt hcell)
  obtain ⟨cells, hdrop, hlength, hlinked, hkept⟩ := hinv.dropItem hitem
  have hne : item.cellIx ≠ e := by
    rintro rfl
    rw [hfree] at hslot
    contradiction
  obtain ⟨o', hclose, hinv', hmembers⟩ := (hinv.closing hitem hlength hlinked).closeUp
    (cells.length - 1) (by rwa [hlength]) (hkept e hfree)
    (by simpa [hlength] using steps_pos hcell hne)
    (by
      have hlt := steps_lt hcell he
      dsimp only
      rw [hlength]
      omega)
  refine ⟨o', ?_, hinv', hmembers.trans (map_swapOut ..)⟩
  rw [objectRemoveInternal, hinv.getCellIx_known hitem]
  simp [hslot, hdrop, hclose]

end GeoNS.Parson.HashTable
