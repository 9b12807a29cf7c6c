import GeoNS.Parson.HashRemoval

/-!
# Objects over runs of calls

Whatever is added, set and removed, and wherever memory is short, the hash table of an
object is the list of its members.
-/

namespace GeoNS.Parson.HashTable

open CString SlotTable Probing

inductive Call
  | add (name : CStr) (value : Value) (memory : Memory)
  | set (name : CStr) (value : Option Value) (memory : Memory)
  | get (name : CStr)
  | remove (name : CStr)
  | clear

inductive Answer
  | status (success : Bool)
  | value (value : Option Value)

def call (fuel : Nat) (o : JsonObject) : Call → Option (JsonObject × Answer)
  | .add name value memory => (objectAdd memory fuel o name value).map fun done => (done.1, .status done.2)
  | .set name value memory => (objectSetValue memory fuel o name value).map fun done => (done.1, .status done.2)
  | .get name => (objectGetnValue o name).map fun value => (o, .value value)
  | .remove name => (objectRemoveInternal o name).map fun done => (done.1, .status done.2)
  | .clear => some (objectClear o, .status true)

def calls (fuel : Nat) : List Call → JsonObject → Option (JsonObject × List Answer)
  | [], o => some (o, [])
  | c :: cs, o =>
    (call fuel o c).bind fun (o, answer) => (calls fuel cs o).map fun (o, answers) => (o, answer :: answers)

def Call.memory : Call → Option Memory
  | .add _ _ memory | .set _ _ memory => some memory
  | _ => none

def Memory.Short (memory : Memory) (count : Nat) : Prop :=
  ∃ capacity ≤ 3 * count + 16, memory.arrays capacity = false

/-- What a call means for the list of members. -/
inductive Meant (members : Object) : Call → Answer → Object → Prop
  | added (h : objectHasValue (some members) name.1 = false) :
    Meant members (.add name value memory) (.status true) (members ++ [(name.1, value)])
  | known (h : objectHasValue (some members) name.1) :
    Meant members (.add name value memory) (.status false) members
  | full (h : objectHasValue (some members) name.1 = false) (hshort : memory.Short members.length) :
    Meant members (.add name value memory) (.status false) members
  | set : Meant members (.set name value memory) (.status value.isSome)
    (Parson.objectSetValue members name.1 value)
  | unset (h : objectHasValue (some members) name.1 = false)
    (hshort : memory.name = false ∨ memory.Short members.length) :
    Meant members (.set name (some v) memory) (.status false) members
  | got : Meant members (.get name) (.value (objectGetValue (some members) name.1)) members
  | removed (h : members[c]? = some (name.1, v)) :
    Meant members (.remove name) (.status true) (swapOut members c)
  | absent (h : objectHasValue (some members) name.1 = false) :
    Meant members (.remove name) (.status false) members
  | cleared : Meant members .clear (.status true) []

inductive MeantAll : Object → List Call → List Answer → Object → Prop
  | nil : MeantAll members [] [] members
  | cons {called : Call} (h : Meant members called answer members')
    (hrest : MeantAll members' rest answers members'') :
    MeantAll members (called :: rest) (answer :: answers) members''

variable {o : JsonObject} {item : Item} {name : CStr} {c p : Nat}

-- ---------------------------------------------------------------------------
-- Runs
-- ---------------------------------------------------------------------------

theorem Inv.makeRoom (hinv : Inv o) (hname : name ∉ o.items.map (·.name)) {memory : Memory}
    (hmemory : memory.Bounded) (fuel : Nat) (hcell : objectGetCellIx o name (hashString name.1) = some (cellIx, false)) :
    ((∃ capacity ≤ 3 * o.items.length + 16, memory.arrays capacity = false) ∧
        makeRoom o (objectGrowAndRehash memory (fuel + 1)) name (hashString name.1) cellIx = some none) ∨
      ∃ o' p, makeRoom o (objectGrowAndRehash memory (fuel + 1)) name (hashString name.1) cellIx =
          some (some (o', some p)) ∧ Inv o' ∧ o'.members = o.members ∧
        ∀ value, ∃ o'', o'.store name value (hashString name.1) (some p) = some o'' ∧ Stored o' name value o'' := by
  by_cases hfull : o.itemCapacity ≤ o.items.length
  · unfold HashTable.makeRoom
    rw [if_pos hfull]
    rcases hinv.grow hmemory fuel with ⟨hshort, hfails⟩ | ⟨o', hgrown, hroomy⟩
    · exact .inl ⟨⟨_, hinv.capacity.next_le hfull, hshort⟩, by rw [hfails]⟩
    · obtain ⟨p, hfound, hstore⟩ := hroomy.inv.store (hroomy.names ▸ hname) hroomy.room
      exact .inr ⟨o', p, by rw [hgrown]; simp [hfound], hroomy.inv, hroomy.members, hstore⟩
  · obtain ⟨p, hfound, hstore⟩ := hinv.store hname (Nat.lt_of_not_le hfull)
    rw [hcell] at hfound
    cases hfound
    exact .inr ⟨o, p, by rw [HashTable.makeRoom, if_neg hfull], hinv, rfl, hstore⟩

theorem Inv.objectGetValue_known (hinv : Inv o) (hitem : item ∈ o.items) :
    objectGetValue (some o.members) item.name.1 = some item.value := by
  have hfind : o.items.find? (fun other => other.name.1 == item.name.1) = some item := by
    obtain ⟨before, after, hsplit⟩ := List.append_of_mem hitem
    refine List.find?_eq_some_iff_append.mpr ⟨by simp, before, after, hsplit, fun other hother => ?_⟩
    have hnodup := hinv.nodup
    rw [hsplit, List.map_append, List.map_cons] at hnodup
    have hne := (List.nodup_append.mp hnodup).2.2 _ (List.mem_map_of_mem hother) _ List.mem_cons_self
    simpa [Subtype.ext_iff] using hne
  rw [objectGetValue, Option.bind_some, JsonObject.members, List.find?_map]
  simp only [Function.comp_def, hfind]
  rfl

theorem objectGetValue_unknown (hname : name ∉ o.items.map (·.name)) :
    objectGetValue (some o.members) name.1 = none := by
  have hnone : ∀ item ∈ o.items, item.name.1 ≠ name.1 := fun item hitem hsame =>
    hname (Subtype.ext hsame ▸ List.mem_map_of_mem hitem)
  simpa [objectGetValue, JsonObject.members] using hnone

theorem known_or_unknown (o : JsonObject) (name : CStr) :
    (∃ (c : Nat) (item : Item), o.items[c]? = some item ∧ item.name = name) ∨ name ∉ o.items.map (·.name) := by
  by_cases hname : name ∈ o.items.map (·.name)
  · obtain ⟨item, hmem, rfl⟩ := List.mem_map.mp hname
    obtain ⟨c, hitem⟩ := List.mem_iff_getElem?.mp hmem
    exact .inl ⟨c, item, hitem, rfl⟩
  · exact .inr hname

theorem Inv.get (hinv : Inv o) (name : CStr) :
    objectGetnValue o name = some (objectGetValue (some o.members) name.1) := by
  rcases known_or_unknown o name with ⟨c, item, hitem, rfl⟩ | hname
  · rw [objectGetnValue, hinv.getCellIx_known hitem, hinv.objectGetValue_known (List.mem_of_getElem? hitem)]
    simp [hinv.linked.slot_eq hitem, hitem]
  · obtain ⟨cellIx, hcell⟩ := hinv.getCellIx_false hname
    rw [objectGetnValue, hcell, objectGetValue_unknown hname]

theorem map_modify {β : Type} (f : Item → β) (v : Value) (hf : ∀ item : Item, f { item with value := v } = f item)
    (items : List Item) (c : Nat) : (items.modify c ({ · with value := v })).map f = items.map f := by
  refine List.ext_getElem? fun d => ?_
  rw [List.getElem?_map, List.getElem?_modify, List.getElem?_map]
  cases items[d]? with
  | none => rfl
  | some item =>
    simp only [Option.map_eq_map, Option.map_some]
    split <;> simp [hf]

theorem Inv.modify (hinv : Inv o) (c : Nat) (v : Value) :
    Inv { o with items := o.items.modify c ({ · with value := v }) } := by
  have hkept {β : Type} (f : Item → β) (hf : ∀ item : Item, f { item with value := v } = f item) (d : Nat) :
      (o.items.modify c ({ · with value := v }))[d]?.map f = o.items[d]?.map f := by
    rw [← List.getElem?_map, map_modify f v hf, List.getElem?_map]
  refine ⟨⟨hinv.capacity, by simpa using hinv.room, fun other hother => ?_, ?_⟩, fun d p => ?_, ?_⟩
  · have hpair := List.mem_map_of_mem (f := fun item : Item => (item.hash, item.name)) hother
    dsimp only at hpair
    rw [map_modify _ v fun _ => rfl] at hpair
    obtain ⟨old, hold, hsame⟩ := List.mem_map.mp hpair
    obtain ⟨hhash, hname⟩ := Prod.mk.inj hsame
    rw [← hhash, ← hname]
    exact hinv.hashes old hold
  · dsimp only
    rw [map_modify _ v fun _ => rfl]
    exact hinv.nodup
  · rw [hkept _ fun _ => rfl]
    exact hinv.linked d p
  · have hhome : JsonObject.home { o with items := o.items.modify c ({ · with value := v }) } = o.home := by
      funext p
      unfold JsonObject.home
      simp only [hkept (fun item => item.hash.toNat % o.cells.length) fun _ => rfl]
    rw [hhome]
    exact hinv.probed

theorem Inv.members_modify (hinv : Inv o) (hitem : o.items[c]? = some item) (v : Value) :
    JsonObject.members { o with items := o.items.modify c ({ · with value := v }) } =
      Parson.objectSetValue o.members item.name.1 (some v) := by
  have hany : (o.members.any fun m => m.1 == item.name.1) = true := by
    simp only [JsonObject.members, List.any_map, List.any_eq_true, Function.comp_apply, beq_iff_eq]
    exact ⟨item, List.mem_of_getElem? hitem, rfl⟩
  rw [Parson.objectSetValue, hany, if_pos rfl, JsonObject.members, JsonObject.members, List.map_map]
  refine List.ext_getElem? fun d => ?_
  rw [List.getElem?_map, List.getElem?_modify, List.getElem?_map]
  cases hother : o.items[d]? with
  | none => rfl
  | some other =>
    by_cases hd : c = d
    · subst hd
      rw [hitem] at hother
      cases hother
      simp
    · have hne : other.name.1 ≠ item.name.1 := fun hsame =>
        hd (hinv.index_eq hitem hother (Subtype.ext hsame.symm))
      simp [hd, hne]

theorem objectSetValue_unknown (hname : name ∉ o.items.map (·.name)) (v : Value) :
    Parson.objectSetValue o.members name.1 (some v) = o.members ++ [(name.1, v)] := by
  have hnone : (o.members.any fun m => m.1 == name.1) = false := by
    simp only [JsonObject.members, List.any_map, List.any_eq_false, Function.comp_apply, beq_iff_eq]
    exact fun item hitem hsame => hname (Subtype.ext hsame ▸ List.mem_map_of_mem hitem)
  rw [Parson.objectSetValue, hnone]
  rfl

theorem Inv.has_known (hinv : Inv o) (hitem : item ∈ o.items) :
    objectHasValue (some o.members) item.name.1 = true := by
  rw [objectHasValue, hinv.objectGetValue_known hitem]
  rfl

theorem has_unknown (hname : name ∉ o.items.map (·.name)) :
    objectHasValue (some o.members) name.1 = false := by
  rw [objectHasValue, objectGetValue_unknown hname]
  rfl

theorem length_members (o : JsonObject) : o.members.length = o.items.length := List.length_map ..

theorem Inv.add_new (hinv : Inv o) (hname : name ∉ o.items.map (·.name)) (value : Value) {memory : Memory}
    (hmemory : memory.Bounded) (fuel : Nat) :
    ∃ o' success, objectAdd memory (fuel + 1) o name value = some (o', success) ∧ Inv o' ∧
      Meant o.members (.add name value memory) (.status success) o'.members := by
  obtain ⟨cellIx, hcell⟩ := hinv.getCellIx_false hname
  rcases hinv.makeRoom hname hmemory fuel hcell with ⟨hshort, hfails⟩ | ⟨o', p, hroom, -, hmembers, hstore⟩
  · refine ⟨o, false, by simp [objectAdd, addWith, hcell, hfails], hinv, ?_⟩
    exact .full (has_unknown hname) (by rwa [length_members])
  · obtain ⟨o'', hstored, hone⟩ := hstore value
    refine ⟨o'', true, by simp [objectAdd, addWith, hcell, hroom, hstored], hone.inv, ?_⟩
    rw [hone.members, hmembers]
    exact .added (has_unknown hname)

theorem Inv.set_new (hinv : Inv o) (hname : name ∉ o.items.map (·.name)) (v : Value) {memory : Memory}
    (hmemory : memory.Bounded) (fuel : Nat) :
    ∃ o' success, objectSetValue memory (fuel + 1) o name (some v) = some (o', success) ∧ Inv o' ∧
      Meant o.members (.set name (some v) memory) (.status success) o'.members := by
  obtain ⟨cellIx, hcell⟩ := hinv.getCellIx_false hname
  rcases hinv.makeRoom hname hmemory fuel hcell with ⟨hshort, hfails⟩ | ⟨o', p, hroom, hinv', hmembers, hstore⟩
  · refine ⟨o, false, by simp [objectSetValue, hcell, hfails], hinv, ?_⟩
    exact .unset (has_unknown hname) (.inr (by rwa [length_members]))
  cases hcopy : memory.name with
  | false =>
    -- the object has grown, and has no member more
    refine ⟨o', false, by simp [objectSetValue, hcell, hroom, hcopy], hinv', ?_⟩
    rw [hmembers]
    exact .unset (has_unknown hname) (.inl hcopy)
  | true =>
    obtain ⟨o'', hstored, hone⟩ := hstore v
    refine ⟨o'', true, by simp [objectSetValue, hcell, hroom, hcopy, hstored], hone.inv, ?_⟩
    rw [hone.members, hmembers, ← objectSetValue_unknown hname]
    exact .set

theorem Inv.set_known (hinv : Inv o) (hitem : o.items[c]? = some item) (v : Value) (memory : Memory) (fuel : Nat) :
    objectSetValue memory fuel o item.name (some v) =
      some ({ o with items := o.items.modify c ({ · with value := v }) }, true) := by
  obtain ⟨hlt, -⟩ := List.getElem?_eq_some_iff.mp hitem
  simp [objectSetValue, hinv.getCellIx_known hitem, hinv.linked.slot_eq hitem, hlt]

theorem inv_clear (hinv : Inv o) : Inv (objectClear o) := inv_replicate hinv.capacity

theorem Inv.call (hinv : Inv o) (fuel : Nat) (c : Call) (hc : ∀ memory ∈ c.memory, memory.Bounded) :
    ∃ o' answer, call (fuel + 1) o c = some (o', answer) ∧ Inv o' ∧ Meant o.members c answer o'.members := by
  cases c with
  | add name value memory =>
    rcases known_or_unknown o name with ⟨i, item, hitem, rfl⟩ | hname
    · have hmem := List.mem_of_getElem? hitem
      exact ⟨o, .status false, by simp [HashTable.call, objectAdd, hinv.addWith_known hmem], hinv,
        .known (hinv.has_known hmem)⟩
    · obtain ⟨o', success, hadd, hinv', hmeant⟩ := hinv.add_new hname value (hc memory rfl) fuel
      exact ⟨o', .status success, by simp [HashTable.call, hadd], hinv', hmeant⟩
  | set name value memory =>
    cases value with
    | none => exact ⟨o, .status false, rfl, hinv, .set⟩
    | some v =>
      rcases known_or_unknown o name with ⟨i, item, hitem, rfl⟩ | hname
      · refine ⟨_, .status true, by simp [HashTable.call, hinv.set_known hitem], hinv.modify i v, ?_⟩
        rw [hinv.members_modify hitem]
        exact .set
      · obtain ⟨o', success, hset, hinv', hmeant⟩ := hinv.set_new hname v (hc memory rfl) fuel
        exact ⟨o', .status success, by simp [HashTable.call, hset], hinv', hmeant⟩
  | get name => exact ⟨o, _, by simp [HashTable.call, hinv.get], hinv, .got⟩
  | remove name =>
    rcases known_or_unknown o name with ⟨i, item, hitem, rfl⟩ | hname
    · obtain ⟨o', hremove, hinv', hmembers⟩ := hinv.remove hitem
      refine ⟨o', .status true, by simp [HashTable.call, hremove], hinv', ?_⟩
      rw [hmembers]
      exact .removed (v := item.value) (by simp [JsonObject.members, hitem])
    · obtain ⟨cellIx, hcell⟩ := hinv.getCellIx_false hname
      exact ⟨o, .status false, by simp [HashTable.call, objectRemoveInternal, hcell], hinv, .absent (has_unknown hname)⟩
  | clear => exact ⟨objectClear o, .status true, rfl, inv_clear hinv, .cleared⟩

theorem Inv.calls (hinv : Inv o) (fuel : Nat) (cs : List Call)
    (hcs : ∀ c ∈ cs, ∀ memory ∈ c.memory, memory.Bounded) :
    ∃ o' answers, calls (fuel + 1) cs o = some (o', answers) ∧ Inv o' ∧ MeantAll o.members cs answers o'.members := by
  induction cs generalizing o with
  | nil => exact ⟨o, [], rfl, hinv, .nil⟩
  | cons c cs ih =>
    obtain ⟨hc, hrest⟩ := List.forall_mem_cons.mp hcs
    obtain ⟨o₁, answer, hcall, hone, hmeant⟩ := hinv.call fuel c hc
    obtain ⟨o', answers, hcalls, hinv', hall⟩ := ih hone hrest
    exact ⟨o', answer :: answers, by simp [HashTable.calls, hcall, hcalls], hinv', .cons hmeant hall⟩

/-- Over any run of calls on a new object, whichever allocations fail, no access is
outside of the arrays, and the answers and the members are those of the list of members,
where each name is once. -/
theorem members_of_run (fuel : Nat) (cs : List Call) (hcs : ∀ c ∈ cs, ∀ memory ∈ c.memory, memory.Bounded) :
    ∃ o answers, calls (fuel + 1) cs objectMake = some (o, answers) ∧ MeantAll [] cs answers o.members ∧
      (o.members.map (·.1)).Nodup := by
  obtain ⟨o, answers, hcalls, hinv, hall⟩ := (inv_replicate .empty).calls fuel cs hcs
  refine ⟨o, answers, hcalls, hall, ?_⟩
  have hnames : o.members.map (·.1) = (o.items.map (·.name)).map (·.1) := by simp [JsonObject.members]
  rw [hnames]
  exact hinv.nodup.map Subtype.val_injective

def sampleMemory : Memory := ⟨fun capacity => capacity < 2 ^ 32, true⟩

/-- A member that is set twice, one that is removed, and one that is not allocated. -/
def sampleCalls : List Call :=
  [.add ⟨bytes "port", by decide⟩ .null sampleMemory, .set ⟨bytes "addr", by decide⟩ (some (.boolean true)) sampleMemory,
    .set ⟨bytes "port", by decide⟩ (some (.boolean false)) sampleMemory, .remove ⟨bytes "addr", by decide⟩,
    .set ⟨bytes "on", by decide⟩ (some .null) ⟨fun _ => false, false⟩, .get ⟨bytes "port", by decide⟩]

theorem bounded_sampleCalls : ∀ c ∈ sampleCalls, ∀ memory ∈ c.memory, memory.Bounded := by
  simp [sampleCalls, Call.memory, sampleMemory, Memory.Bounded]

theorem members_of_run_sample : ∃ o answers, calls 1 sampleCalls objectMake = some (o, answers) ∧
    MeantAll [] sampleCalls answers o.members ∧ (o.members.map (·.1)).Nodup :=
  members_of_run 0 sampleCalls bounded_sampleCalls

example : (calls 1 sampleCalls objectMake).map (fun done => done.1.items.map (·.name.1)) = some [bytes "port"] := by
  decide +kernel

end GeoNS.Parson.HashTable
