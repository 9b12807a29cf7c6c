import GeoNS.Parson.Accepted

/-!
# Values that differ in their numbers

Two values are alike if the numbers of one stand for those of the other. What is done
to both leaves them alike: setting a value under a path, looking one up, and reading
the text that is written for one of them.
-/

namespace GeoNS.Parson

open CString

variable {same : Decimal → Decimal → Prop}

inductive Alike (same : Decimal → Decimal → Prop) : Value → Value → Prop
  | null : Alike same .null .null
  | boolean (b : Bool) : Alike same (.boolean b) (.boolean b)
  | number (h : same d d') : Alike same (.number d) (.number d')
  | string (s : Bytes) : Alike same (.string s) (.string s)
  | array (hlength : items.length = items'.length)
    (hitems : ∀ v v', (v, v') ∈ items.zip items' → Alike same v v') : Alike same (.array items) (.array items')
  | object (hlength : members.length = members'.length)
    (hnames : ∀ m m', (m, m') ∈ members.zip members' → m.1 = m'.1)
    (hmembers : ∀ m m', (m, m') ∈ members.zip members' → Alike same m.2 m'.2) :
    Alike same (.object members) (.object members')

def AlikeMembers (same : Decimal → Decimal → Prop) (members members' : Object) : Prop :=
  List.Forall₂ (fun m m' => m.1 = m'.1 ∧ Alike same m.2 m'.2) members members'

theorem alike_object_iff {members : Object} : Alike same (.object members) v' ↔
    ∃ members', v' = .object members' ∧ AlikeMembers same members members' := by
  constructor
  · rintro (_ | _ | _ | _ | _ | ⟨hlength, hnames, hmembers⟩)
    exact ⟨_, rfl, List.forall₂_iff_zip.mpr ⟨hlength, fun hm => ⟨hnames _ _ hm, hmembers _ _ hm⟩⟩⟩
  · rintro ⟨members', rfl, h⟩
    obtain ⟨hlength, hzip⟩ := List.forall₂_iff_zip.mp h
    exact .object hlength (fun _ _ hm => (hzip hm).1) fun _ _ hm => (hzip hm).2

theorem Alike.valueGetType (h : Alike same v v') : valueGetType v = valueGetType v' := by
  cases h <;> rfl

theorem mapItems_eq (f : Decimal → Decimal) (items : List Value) : mapItems f items = items.map (·.mapNumbers f) := by
  induction items with
  | nil => rfl
  | cons v rest ih => rw [mapItems, ih, List.map_cons]

theorem mapMembers_eq (f : Decimal → Decimal) (members : Object) :
    mapMembers f members = members.map fun m => (m.1, m.2.mapNumbers f) := by
  induction members with
  | nil => rfl
  | cons m rest ih => rw [mapMembers, ih, List.map_cons]

-- ---------------------------------------------------------------------------
-- Well-formed values
-- ---------------------------------------------------------------------------

theorem eq_of_mem_zip_self {l : List α} (h : (a, b) ∈ l.zip l) : a = b := by
  induction l with
  | nil => cases h
  | cons c l ih =>
    rw [List.zip_cons_cons, List.mem_cons] at h
    rcases h with heq | h
    · obtain ⟨rfl, rfl⟩ := Prod.mk.inj heq
      rfl
    · exact ih h

theorem WellFormed.alike_refl (h : WellFormed P v) (hsame : ∀ d, P d → same d d) : Alike same v v := by
  induction h with
  | null => exact .null
  | boolean b => exact .boolean b
  | number hd => exact .number (hsame _ hd)
  | string s => exact .string s
  | array _ ih =>
    refine .array rfl fun v v' hzip => ?_
    obtain rfl := eq_of_mem_zip_self hzip
    exact ih v (List.of_mem_zip hzip).1
  | object _ _ _ ih =>
    refine .object rfl (fun m m' hzip => ?_) fun m m' hzip => ?_
    · rw [eq_of_mem_zip_self hzip]
    · obtain rfl := eq_of_mem_zip_self hzip
      exact ih m (List.of_mem_zip hzip).1

theorem Alike.mapNumbers {f : Decimal → Decimal} (h : Alike same v v') (hwell : WellFormed P v)
    (hf : ∀ d d', P d → same d d' → same d (f d')) : Alike same v (v'.mapNumbers f) := by
  induction h with
  | null => exact .null
  | boolean b => exact .boolean b
  | number hd =>
    cases hwell with
    | number hp => exact .number (hf _ _ hp hd)
  | string s => exact .string s
  | array hlength _ ih =>
    cases hwell with
    | array hitems =>
      rw [Value.mapNumbers, mapItems_eq]
      refine .array (by simpa using hlength) fun v w hzip => ?_
      rw [List.zip_map_right, List.mem_map] at hzip
      obtain ⟨⟨u, u'⟩, hmem, heq⟩ := hzip
      obtain ⟨rfl, rfl⟩ := Prod.mk.inj heq
      exact ih _ _ hmem (hitems _ (List.of_mem_zip hmem).1)
  | object hlength hnames _ ih =>
    cases hwell with
    | object _ _ hmembers =>
      rw [Value.mapNumbers, mapMembers_eq]
      refine .object (by simpa using hlength) (fun m n hzip => ?_) fun m n hzip => ?_
      all_goals
        rw [List.zip_map_right, List.mem_map] at hzip
        obtain ⟨⟨u, u'⟩, hmem, heq⟩ := hzip
        obtain ⟨rfl, rfl⟩ := Prod.mk.inj heq
      · exact hnames u u' hmem
      · exact ih u u' hmem (hmembers _ (List.of_mem_zip hmem).1)

theorem exists_mem_zip {l : List α} {l' : List β} (hlength : l.length = l'.length) (h : b ∈ l') :
    ∃ a, (a, b) ∈ l.zip l' := by
  obtain ⟨i, hi, rfl⟩ := List.mem_iff_getElem.mp h
  exact ⟨l[i], List.mem_iff_getElem.mpr ⟨i, by simp [hi, hlength], by simp⟩⟩

theorem WellFormed.alike (hwell : WellFormed P v) (h : Alike same v v')
    (hq : ∀ d d', P d → same d d' → Q d') : WellFormed Q v' := by
  induction h with
  | null => exact .null
  | boolean b => exact .boolean b
  | number hd =>
    cases hwell with
    | number hp => exact .number (hq _ _ hp hd)
  | string s => exact .string s
  | array hlength _ ih =>
    cases hwell with
    | array hitems =>
      refine .array fun v' hv' => ?_
      obtain ⟨v, hmem⟩ := exists_mem_zip hlength hv'
      exact ih _ _ hmem (hitems _ (List.of_mem_zip hmem).1)
  | @object members members' hlength hnames _ ih =>
    cases hwell with
    | object hzero hdistinct hmembers =>
      have hsame : members.map (·.1) = members'.map (·.1) := by
        refine List.ext_getElem (by simpa using hlength) fun i hi hi' => ?_
        rw [List.length_map] at hi hi'
        have hmem : (members[i], members'[i]) ∈ members.zip members' :=
          List.mem_iff_getElem.mpr ⟨i, by simp [hi, hi'], by simp⟩
        rw [List.getElem_map, List.getElem_map]
        exact hnames _ _ hmem
      refine .object (fun m' hm' => ?_) (hsame ▸ hdistinct) fun m' hm' => ?_
      all_goals obtain ⟨m, hmem⟩ := exists_mem_zip hlength hm'
      · exact hnames _ _ hmem ▸ hzero _ (List.of_mem_zip hmem).1
      · exact ih _ _ hmem (hmembers _ (List.of_mem_zip hmem).1)

-- ---------------------------------------------------------------------------
-- Objects
-- ---------------------------------------------------------------------------

variable {members members' : Object}

theorem AlikeMembers.get (h : AlikeMembers same members members') (name : Bytes) :
    Option.Rel (Alike same) (objectGetValue (some members) name) (objectGetValue (some members') name) := by
  induction h with
  | nil => exact .none
  | @cons m m' rest rest' hm _ ih =>
    simp only [objectGetValue, Option.bind_some, List.find?_cons] at ih ⊢
    rw [← hm.1]
    cases m.1 == name with
    | true => exact .some hm.2
    | false => exact ih

theorem AlikeMembers.any (h : AlikeMembers same members members') (name : Bytes) :
    members.any (·.1 == name) = members'.any (·.1 == name) := by
  induction h with
  | nil => rfl
  | cons hm _ ih => rw [List.any_cons, List.any_cons, hm.1, ih]

theorem AlikeMembers.setValue (h : AlikeMembers same members members') (name : Bytes) (hv : Alike same v v') :
    AlikeMembers same (objectSetValue members name (some v)) (objectSetValue members' name (some v')) := by
  rw [objectSetValue, objectSetValue, ← h.any]
  split
  · refine List.forall₂_map_left_iff.mpr (List.forall₂_map_right_iff.mpr (List.Forall₂.imp (fun m m' hm => ?_) h))
    rw [← hm.1]
    split
    · exact ⟨rfl, hv⟩
    · exact hm
  · exact List.rel_append h (.cons ⟨rfl, hv⟩ .nil)

theorem AlikeMembers.get_eq_none (h : AlikeMembers same members members')
    (hnone : objectGetValue (some members) name = none) : objectGetValue (some members') name = none := by
  have hget := h.get name
  rw [hnone] at hget
  cases hother : objectGetValue (some members') name with
  | none => rfl
  | some v =>
    rw [hother] at hget
    cases hget

theorem AlikeMembers.get_eq_some (h : AlikeMembers same members members')
    (hsome : objectGetValue (some members) name = some v) :
    ∃ v', objectGetValue (some members') name = some v' ∧ Alike same v v' := by
  have hget := h.get name
  rw [hsome] at hget
  cases hother : objectGetValue (some members') name with
  | none =>
    rw [hother] at hget
    cases hget
  | some v' =>
    rw [hother] at hget
    cases hget with
    | some halike => exact ⟨v', rfl, halike⟩

theorem AlikeMembers.continues (h : AlikeMembers same members members') (hchild : Continues members name child) :
    ∃ child', Continues members' name child' ∧ AlikeMembers same child child' := by
  rcases hchild with ⟨hnone, rfl⟩ | hsome
  · exact ⟨[], .inl ⟨h.get_eq_none hnone, rfl⟩, .nil⟩
  · obtain ⟨v', hother, halike⟩ := h.get_eq_some hsome
    obtain ⟨child', rfl, hinner⟩ := alike_object_iff.mp halike
    exact ⟨child', .inr hother, hinner⟩

theorem AlikeMembers.dotsetValue (h : AlikeMembers same members members') (path : List Bytes)
    (hv : Alike same v v') :
    AlikeMembers same (objectDotsetValue members path v) (objectDotsetValue members' path v') := by
  induction path generalizing members members' with
  | nil => exact h
  | cons name rest ih =>
    by_cases hrest : rest = []
    · subst hrest
      exact h.setValue name hv
    rcases continues_or_blocked members name with ⟨child, hchild⟩ | ⟨b, hb, hblocked⟩
    · obtain ⟨child', hchild', hinner⟩ := h.continues hchild
      rw [objectDotsetValue_of_continues hrest hchild, objectDotsetValue_of_continues hrest hchild']
      exact h.setValue name (alike_object_iff.mpr ⟨_, rfl, ih hinner⟩)
    · obtain ⟨b', hb', halike⟩ := h.get_eq_some hb
      have hblocked' : ∀ child, b' ≠ .object child := by
        rintro child rfl
        cases halike with
        | object => exact hblocked _ rfl
      rwa [objectDotsetValue_of_blocked hrest hb hblocked, objectDotsetValue_of_blocked hrest hb' hblocked']

theorem dotgetValue_alike {object object' : Option Object} (h : Option.Rel (AlikeMembers same) object object')
    (path : List Bytes) :
    Option.Rel (Alike same) (objectDotgetValue object path) (objectDotgetValue object' path) := by
  induction path generalizing object object' with
  | nil => exact .none
  | cons name rest ih =>
    have hget : Option.Rel (Alike same) (objectGetValue object name) (objectGetValue object' name) := by
      cases h with
      | none => exact .none
      | some h => exact h.get name
    by_cases hrest : rest = []
    · subst hrest
      exact hget
    rw [objectDotgetValue_cons hrest, objectDotgetValue_cons hrest]
    refine ih ?_
    generalize objectGetValue object name = found at hget
    generalize objectGetValue object' name = found' at hget
    cases hget with
    | none => exact .none
    | some halike =>
      cases halike with
      | object hlength hnames hmembers =>
        obtain ⟨_, heq, hinner⟩ := alike_object_iff.mp (.object hlength hnames hmembers)
        cases heq
        exact .some hinner
      | _ => exact .none

-- ---------------------------------------------------------------------------
-- What is found
-- ---------------------------------------------------------------------------

section

variable {found found' : Option Value} (h : Option.Rel (Alike same) found found')
include h

theorem valueGetType_found : found.map valueGetType = found'.map valueGetType := by
  cases h with
  | none => rfl
  | some halike => rw [Option.map_some, Option.map_some, halike.valueGetType]

theorem boolean_found (b : Bool) : found = some (.boolean b) ↔ found' = some (.boolean b) := by
  cases h with
  | none => rfl
  | some halike => cases halike <;> simp

theorem string_found (s : Bytes) : found = some (.string s) ↔ found' = some (.string s) := by
  cases h with
  | none => rfl
  | some halike => cases halike <;> simp

theorem number_found (hfound : found' = some (.number d')) : ∃ d, found = some (.number d) ∧ same d d' := by
  subst hfound
  cases h with
  | some halike =>
    cases halike with
    | number hd => exact ⟨_, rfl, hd⟩

end

end GeoNS.Parson
