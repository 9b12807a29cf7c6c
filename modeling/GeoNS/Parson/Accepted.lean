import GeoNS.Parson.Pretty

/-!
# What the parser accepts

A text that the parser accepts gives a well-formed value, and the setters keep
an object well-formed. The indented text of such a value gives it again.
-/

namespace GeoNS.Parson

open CString

-- ---------------------------------------------------------------------------
-- Accepted values
-- ---------------------------------------------------------------------------

/-- A value that stands at nesting `n`, with the numbers `strtod` returns. -/
structure Accepted (n : Nat) (v : Value) : Prop where
  wellFormed : WellFormed (·.finite) v
  nesting : n + depth v ≤ maxNesting

theorem depthItems_le (hn : n ≤ k) (h : ∀ v ∈ items, n + 1 + depth v ≤ k) : n + depthItems items ≤ k := by
  induction items with
  | nil => exact hn
  | cons v rest ih =>
    obtain ⟨hv, hrest⟩ := List.forall_mem_cons.mp h
    have := ih hrest
    rw [depthItems]
    omega

theorem depthMembers_le {members : Object} (hn : n ≤ k) (h : ∀ m ∈ members, n + 1 + depth m.2 ≤ k) :
    n + depthMembers members ≤ k := by
  induction members with
  | nil => exact hn
  | cons m rest ih =>
    obtain ⟨name, v⟩ := m
    obtain ⟨hv, hrest⟩ := List.forall_mem_cons.mp h
    have hrest := ih hrest
    rw [depthMembers]
    dsimp only at hv
    omega

theorem Accepted.array (hn : n ≤ maxNesting) (h : ∀ v ∈ items, Accepted (n + 1) v) :
    Accepted n (.array items) where
  wellFormed := .array fun v hv => (h v hv).wellFormed
  nesting := depthItems_le hn fun v hv => (h v hv).nesting

structure Members (n : Nat) (members : Object) : Prop where
  names : ∀ m ∈ members, (0 : UInt8) ∉ m.1
  distinct : (members.map (·.1)).Nodup
  values : ∀ m ∈ members, Accepted n m.2

theorem Members.object (h : Members (n + 1) members) (hn : n ≤ maxNesting) :
    Accepted n (.object members) where
  wellFormed := .object h.names h.distinct fun m hm => (h.values m hm).wellFormed
  nesting := depthMembers_le hn fun m hm => (h.values m hm).nesting

theorem Members.nil : Members n [] := ⟨by simp, List.nodup_nil, by simp⟩

theorem Members.concat (h : Members n members) (hname : (0 : UInt8) ∉ name) (hv : Accepted n v)
    (hnew : members.any (·.1 == name) = false) : Members n (members ++ [(name, v)]) where
  names := by
    rintro m hm
    rcases List.mem_append.mp hm with hm | hm
    · exact h.names m hm
    · cases List.mem_singleton.mp hm
      exact hname
  distinct := by
    rw [List.map_append, List.nodup_append]
    refine ⟨h.distinct, List.nodup_singleton name, fun a ha b hb hab => ?_⟩
    obtain ⟨m, hm, rfl⟩ := List.mem_map.mp ha
    cases List.mem_singleton.mp hb
    exact List.any_eq_false.mp hnew m hm (beq_iff_eq.mpr hab)
  values := by
    rintro m hm
    rcases List.mem_append.mp hm with hm | hm
    · exact h.values m hm
    · cases List.mem_singleton.mp hm
      exact hv

-- ---------------------------------------------------------------------------
-- The parser
-- ---------------------------------------------------------------------------

theorem zero_notMem_of_parseName (h : parseName s = some (name, left)) : (0 : UInt8) ∉ name := by
  unfold parseName at h
  split at h
  · contradiction
  · split at h
    case isTrue => contradiction
    rename_i hzero
    split at h
    · contradiction
    · split at h
      · cases h
        exact hzero
      · contradiction

theorem finite_of_parseNumberValue (h : parseNumberValue s = some (v, left)) :
    ∃ d : Decimal, v = .number d ∧ d.finite := by
  simp only [parseNumberValue] at h
  split at h
  · contradiction
  split at h
  · rename_i hfinite
    rw [Bool.and_eq_true] at hfinite
    cases h
    exact ⟨_, rfl, hfinite.1⟩
  · contradiction

theorem value_of_parseLiteral (h : parseLiteral token v s = some (v', left)) : v' = v := by
  unfold parseLiteral at h
  split at h
  · cases h
    rfl
  · contradiction

theorem accepted_of_parseScalar (hn : n ≤ maxNesting) (h : parseScalar c rest = some (v, left)) :
    Accepted n v := by
  unfold parseScalar at h
  split at h
  · obtain ⟨⟨chars, left'⟩, -, heq⟩ := Option.map_eq_some_iff.mp h
    cases heq
    exact ⟨.string chars, hn⟩
  split at h
  · unfold parseBooleanValue at h
    split at h
    · rename_i r hr
      cases h
      cases value_of_parseLiteral hr
      exact ⟨.boolean true, hn⟩
    · cases value_of_parseLiteral h
      exact ⟨.boolean false, hn⟩
  split at h
  · obtain ⟨d, rfl, hd⟩ := finite_of_parseNumberValue h
    exact ⟨.number hd, hn⟩
  split at h
  · cases value_of_parseLiteral h
    exact ⟨.null, hn⟩
  · contradiction

theorem accepted_of_parseOpened {parseMore : Bytes → Option (Value × Bytes)}
    (hempty : Accepted n empty) (hmore : ∀ s v left, parseMore s = some (v, left) → Accepted n v)
    (h : parseOpened close empty parseMore s = some (v, left)) : Accepted n v := by
  unfold parseOpened at h
  split at h
  · contradiction
  split at h
  · cases h
    exact hempty
  · exact hmore _ _ _ h

/-- An array or object at nesting `n` holds values at the next one. -/
theorem accepted_of_parse (fuel : Nat) :
    (∀ n s v left, parseValue fuel n s = some (v, left) → Accepted n v) ∧
    (∀ n acc s v left, n ≤ maxNesting → Members (n + 1) acc →
      parseMembers fuel (n + 1) acc s = some (v, left) → Accepted n v) ∧
    (∀ n acc s v left, n ≤ maxNesting → (∀ w ∈ acc, Accepted (n + 1) w) →
      parseItems fuel (n + 1) acc s = some (v, left) → Accepted n v) := by
  induction fuel with
  | zero => simp [parseValue, parseMembers, parseItems]
  | succ fuel ih =>
    obtain ⟨ihValue, ihMembers, ihItems⟩ := ih
    refine ⟨fun n s v left h => ?_, fun n acc s v left hn hacc h => ?_, fun n acc s v left hn hacc h => ?_⟩
    · obtain ⟨hn, c, rest, -, hreads⟩ := parseValue_cases h
      cases hreads with
      | object h =>
        exact accepted_of_parseOpened (Members.nil.object hn) (fun s v left => ihMembers n [] s v left hn .nil) h
      | array h =>
        exact accepted_of_parseOpened (.array hn (by simp)) (fun s v left => ihItems n [] s v left hn (by simp)) h
      | scalar _ _ h => exact accepted_of_parseScalar hn h
    · unfold parseMembers at h
      split at h
      · contradiction
      rename_i name left₁ hname
      split at h
      · contradiction
      rename_i v₁ left₂ hvalue
      split at h
      · contradiction
      rename_i hnew
      have hacc := hacc.concat (zero_notMem_of_parseName hname) (ihValue _ _ _ _ hvalue)
        (Bool.eq_false_iff.mpr hnew)
      split at h
      · contradiction
      · cases h
        exact hacc.object hn
      · exact ihMembers _ _ _ _ _ hn hacc h
    · unfold parseItems at h
      split at h
      · contradiction
      rename_i v₁ left₁ hvalue
      have hacc : ∀ w ∈ acc ++ [v₁], Accepted (n + 1) w := by
        intro w hw
        rcases List.mem_append.mp hw with hw | hw
        · exact hacc w hw
        · cases List.mem_singleton.mp hw
          exact ihValue _ _ _ _ hvalue
      split at h
      · contradiction
      · cases h
        exact .array hn hacc
      · exact ihItems _ _ _ _ _ hn hacc h

theorem accepted_of_jsonParse (h : jsonParse s = some (v, left)) : Accepted 0 v :=
  (accepted_of_parse _).1 _ _ _ _ h

-- ---------------------------------------------------------------------------
-- Members that are set
-- ---------------------------------------------------------------------------

theorem mem_setValue {members : Object} (h : m ∈ objectSetValue members name (some v)) :
    m = (name, v) ∨ m ∈ members := by
  unfold objectSetValue at h
  dsimp only at h
  split at h
  · obtain ⟨m', hm', rfl⟩ := List.mem_map.mp h
    split
    · exact .inl rfl
    · exact .inr hm'
  · rcases List.mem_append.mp h with h | h
    · exact .inr h
    · exact .inl (List.mem_singleton.mp h)

theorem nodup_setValue {members : Object} (h : (members.map (·.1)).Nodup) (name : Bytes) (v : Value) :
    ((objectSetValue members name (some v)).map (·.1)).Nodup := by
  unfold objectSetValue
  dsimp only
  split
  case isTrue =>
    have hkeys : (members.map fun m => if m.1 == name then (name, v) else m).map (·.1) =
        members.map (·.1) := by
      rw [List.map_map]
      refine List.map_congr_left fun m _ => ?_
      by_cases hm : m.1 = name <;> simp [hm]
    exact hkeys ▸ h
  case isFalse hany =>
    rw [List.map_append, List.nodup_append]
    refine ⟨h, List.nodup_singleton name, fun a ha b hb hab => hany ?_⟩
    obtain ⟨m, hm, rfl⟩ := List.mem_map.mp ha
    cases List.mem_singleton.mp hb
    exact List.any_eq_true.mpr ⟨m, hm, beq_iff_eq.mpr hab⟩

theorem WellFormed.setValue {members : Object} (h : WellFormed P (.object members))
    (hname : (0 : UInt8) ∉ name) (hv : WellFormed P v) :
    WellFormed P (.object (objectSetValue members name (some v))) := by
  cases h with
  | object hnames hdistinct hmembers =>
    refine .object (fun m hm => ?_) (nodup_setValue hdistinct name v) fun m hm => ?_
    · rcases mem_setValue hm with rfl | hm
      · exact hname
      · exact hnames m hm
    · rcases mem_setValue hm with rfl | hm
      · exact hv
      · exact hmembers m hm

theorem WellFormed.get {members : Object} (h : WellFormed P (.object members))
    (hget : objectGetValue (some members) name = some v) : WellFormed P v := by
  simp only [objectGetValue, Option.bind_some, Option.map_eq_some_iff] at hget
  obtain ⟨m, hfind, rfl⟩ := hget
  cases h with
  | object _ _ hmembers => exact hmembers m (List.mem_of_find?_eq_some hfind)

/-- A value that is set under a path stands in objects that are made for it, or
in those that are there. -/
theorem WellFormed.dotsetValue {members : Object} (h : WellFormed P (.object members))
    (hpath : ∀ name ∈ path, (0 : UInt8) ∉ name) (hv : WellFormed P v) :
    WellFormed P (.object (objectDotsetValue members path v)) := by
  induction path generalizing members with
  | nil => exact h
  | cons name rest ih =>
    obtain ⟨hname, hrest⟩ := List.forall_mem_cons.mp hpath
    by_cases hnil : rest = []
    · subst hnil
      exact h.setValue hname hv
    · rcases continues_or_blocked members name with ⟨child, hchild⟩ | ⟨b, hget, hb⟩
      · rw [objectDotsetValue_of_continues hnil hchild]
        refine h.setValue hname (ih ?_ hrest)
        rcases hchild with ⟨-, rfl⟩ | hget
        · exact .object (by simp) (by simp) (by simp)
        · exact h.get hget
      · rw [objectDotsetValue_of_blocked hnil hget hb]
        exact h

theorem subset_of_mem_intercalate (h : w ∈ ls) (sep : Bytes) : w ⊆ sep.intercalate ls := by
  induction ls with
  | nil => simp at h
  | cons l ls ih =>
    by_cases hnil : ls = []
    · subst hnil
      rw [List.mem_singleton.mp h, List.intercalate_singleton]
      exact List.Subset.refl l
    · rw [List.intercalate_cons_of_ne_nil hnil]
      rcases List.mem_cons.mp h with rfl | h
      · exact fun c hc => by simp [hc]
      · exact fun c hc => by simp [ih h hc]

theorem zero_notMem_names (key : CStr) : ∀ name ∈ names key, (0 : UInt8) ∉ name := by
  intro name hname hzero
  have hsubset := subset_of_mem_intercalate hname [46]
  rw [names, List.intercalate_splitOn] at hsubset
  exact key.2 (hsubset hzero)

-- ---------------------------------------------------------------------------
-- Reformatting
-- ---------------------------------------------------------------------------

mutual
def numbers : Value → List Decimal
  | .number d => [d]
  | .array items => itemNumbers items
  | .object members => memberNumbers members
  | _ => []
def itemNumbers : List Value → List Decimal
  | [] => []
  | v :: rest => numbers v ++ itemNumbers rest
def memberNumbers : Object → List Decimal
  | [] => []
  | (_, v) :: rest => numbers v ++ memberNumbers rest
end

theorem numbers_subset_items (h : v ∈ items) : numbers v ⊆ itemNumbers items := by
  induction items with
  | nil => simp at h
  | cons w rest ih =>
    rw [itemNumbers]
    rcases List.mem_cons.mp h with rfl | h
    · exact List.subset_append_left ..
    · exact List.Subset.trans (ih h) (List.subset_append_right ..)

theorem numbers_subset_members {members : Object} (h : m ∈ members) :
    numbers m.2 ⊆ memberNumbers members := by
  induction members with
  | nil => simp at h
  | cons w rest ih =>
    obtain ⟨name, v⟩ := w
    rw [memberNumbers]
    rcases List.mem_cons.mp h with rfl | h
    · exact List.subset_append_left ..
    · exact List.Subset.trans (ih h) (List.subset_append_right ..)

theorem WellFormed.of_numbers (h : WellFormed P v) (hnumbers : ∀ d ∈ numbers v, Q d) : WellFormed Q v := by
  induction h with
  | null => exact .null
  | boolean b => exact .boolean b
  | @number d _ => exact .number (hnumbers d (by simp [numbers]))
  | string s => exact .string s
  | array _ ih =>
    refine .array fun v hv => ih v hv fun d hd => hnumbers d ?_
    rw [numbers]
    exact numbers_subset_items hv hd
  | object hnames hdistinct _ ih =>
    refine .object hnames hdistinct fun m hm => ih m hm fun d hd => hnumbers d ?_
    rw [numbers]
    exact numbers_subset_members hm hd

section
variable {format : Decimal → Bytes} {f : Decimal → Decimal}

theorem prettyItems_map (h : ∀ v ∈ items, ∀ level,
      serializePretty format level (v.mapNumbers f) = serializePretty format level v) (level : Nat) :
    prettyItems format level (mapItems f items) = prettyItems format level items := by
  induction items with
  | nil => rfl
  | cons v rest ih =>
    obtain ⟨hv, hrest⟩ := List.forall_mem_cons.mp h
    have hsep : separator (mapItems f rest) = separator rest := by cases rest <;> rfl
    rw [mapItems, prettyItems_cons, prettyItems_cons, hv, hsep, ih hrest]

theorem prettyMembers_map {members : Object} (h : ∀ m ∈ members, ∀ level,
      serializePretty format level (m.2.mapNumbers f) = serializePretty format level m.2) (level : Nat) :
    prettyMembers format level (mapMembers f members) = prettyMembers format level members := by
  induction members with
  | nil => rfl
  | cons m rest ih =>
    obtain ⟨hm, hrest⟩ := List.forall_mem_cons.mp h
    have hsep : separator (mapMembers f rest) = separator rest := by cases rest <;> rfl
    rw [mapMembers, prettyMembers_cons, prettyMembers_cons, hm, hsep, ih hrest]

theorem serializePretty_map (h : WellFormed P v) (hnumbers : ∀ d ∈ numbers v, format (f d) = format d)
    (level : Nat) : serializePretty format level (v.mapNumbers f) = serializePretty format level v := by
  induction h generalizing level with
  | @number d _ =>
    rw [Value.mapNumbers, serializePretty, serializePretty]
    exact hnumbers d (by simp [numbers])
  | @array items _ ih =>
    have hitems (level : Nat) : prettyItems format level (mapItems f items) = prettyItems format level items := by
      refine prettyItems_map (fun v hv => ih v hv fun d hd => hnumbers d ?_) level
      rw [numbers]
      exact numbers_subset_items hv hd
    cases items with
    | nil => rfl
    | cons v rest =>
      rw [Value.mapNumbers, mapItems, serializePretty, serializePretty, ← mapItems, hitems]
  | @object members _ _ _ ih =>
    have hmembers (level : Nat) :
        prettyMembers format level (mapMembers f members) = prettyMembers format level members := by
      refine prettyMembers_map (fun m hm => ih m hm fun d hd => hnumbers d ?_) level
      rw [numbers]
      exact numbers_subset_members hm hd
    cases members with
    | nil => rfl
    | cons m rest =>
      rw [Value.mapNumbers, mapMembers, serializePretty, serializePretty, ← mapMembers, hmembers]
  | _ => rfl

end

/-- An accepted text has a well-formed value, and the text the writer indents for that
value is read as the value, up to what is printed for its numbers. Where these are
printed alike, the text is written a second time. -/
theorem jsonParse_reformat {format : Decimal → Bytes} (h : jsonParse s = some (v, left))
    (hprints : ∀ d ∈ numbers v, Prints format d) (hends : Ends v t) :
    WellFormed (·.finite) v ∧ depth v ≤ maxNesting ∧
      jsonParse (jsonSerializeToStringPretty format v ++ t) = some (v.mapNumbers (readBack format), t) ∧
      ((∀ d ∈ numbers v, format (readBack format d) = format d) →
        jsonSerializeToStringPretty format (v.mapNumbers (readBack format)) =
          jsonSerializeToStringPretty format v) := by
  obtain ⟨hwell, hnesting⟩ := accepted_of_jsonParse h
  rw [Nat.zero_add] at hnesting
  refine ⟨hwell, hnesting, jsonParse_pretty (hwell.of_numbers hprints) hnesting t hends, fun hsame => ?_⟩
  exact serializePretty_map hwell hsame 0

def lineText : Bytes := bytes "\x7b\"port\":80,\"on\":[true,null,[]],\"addr\":\"a/b\"\x7d "

def lineValue : Value :=
  .object [(bytes "port", .number (.ofNat 80)), (bytes "on", .array [.boolean true, .null, .array []]),
    (bytes "addr", .string (bytes "a/b"))]

theorem jsonParse_reformat_line :
    jsonParse (jsonSerializeToStringPretty serializeNumber lineValue ++ [10]) = some (lineValue, [10]) ∧
      jsonParse (jsonSerializeToStringPretty serializeNumber (.number (.ofNat 80)) ++ []) =
        some (.number (.ofNat 80), []) := by
  have hfinite : (Decimal.ofNat 80).finite := finite_ofNat (by decide)
  have hprints : ∀ d ∈ numbers lineValue, Prints serializeNumber d := by
    intro d hd
    obtain rfl : d = .ofNat 80 := by simpa [numbers, memberNumbers, itemNumbers, lineValue] using hd
    exact prints_ofNat hfinite
  have hline : jsonParse lineText = some (lineValue, [32]) := by decide +kernel
  have hnumber : jsonParse (bytes "80") = some (.number (.ofNat 80), []) := by decide +kernel
  have hsame : lineValue.mapNumbers (readBack serializeNumber) = lineValue := by
    simp [lineValue, Value.mapNumbers, mapMembers, mapItems, readBack_ofNat hfinite]
  have hprint : ∀ d ∈ numbers (.number (.ofNat 80)), Prints serializeNumber d := fun d hd =>
    List.mem_singleton.mp hd ▸ prints_ofNat hfinite
  obtain ⟨-, -, hreread, -⟩ := jsonParse_reformat (t := [10]) hline hprints fun d hd => by simp [lineValue] at hd
  obtain ⟨-, -, hrenumber, -⟩ := jsonParse_reformat (t := []) hnumber hprint fun _ _ => .inl rfl
  rw [hsame] at hreread
  rw [Value.mapNumbers, readBack_ofNat hfinite] at hrenumber
  exact ⟨hreread, hrenumber⟩

end GeoNS.Parson
