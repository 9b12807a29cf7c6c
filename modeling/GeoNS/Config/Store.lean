import GeoNS.Runs
import GeoNS.Config.Manager

/-!
# The configuration as a store

An update of the configuration that reports success is found under its key,
and nothing else has changed, unless parson refused the update or the file has
outgrown what is read of it.
-/

namespace GeoNS.Configuration

open CString Parson

variable {format : Decimal → Bytes} {file : File} {key : CStr} {setting : Setting}

def Setting.asked : Setting → Option Value
  | .number casted => some (.number casted)
  | .string casted => some (.string casted)
  | .bool casted => some (.boolean (casted != 0))
  | .null => some .null
  | .value casted _ => some casted
  | .other => none

/-- Neither key's path begins the other's. The whole configuration begins
every path. -/
def Apart (key key' : CStr) : Prop :=
  key'.1 ≠ [] ∧ ¬ names key <+: names key' ∧ ¬ names key' <+: names key

/-- The law of the store for one update. -/
structure Lawful (format : Decimal → Bytes) (file : File) (key : CStr) (setting : Setting) : Prop where
  stored : (setConfig format file key setting).1 = true →
    ∃ v, setting.asked = some v ∧ getConfig (setConfig format file key setting).2 key = some v
  frame : (setConfig format file key setting).1 = true → ∀ key', Apart key key' →
    getConfig (setConfig format file key setting).2 key' = getConfig file key'
  readable : (setConfig format file key setting).1 = true →
    getConfig (setConfig format file key setting).2 wholeKey ≠ none
  unchanged : (setConfig format file key setting).1 = false → (setConfig format file key setting).2 = file

/-- Parson's parser undoes its writer on a value. -/
def Undone (format : Decimal → Bytes) (v : Value) : Prop :=
  jsonParse (cstr (jsonSerializeToStringPretty format v)) = some (v, [])

def written (file : File) (key : CStr) (setting : Setting) : Option Value :=
  (getConfig file wholeKey).bind fun config => setting.init.map (updateConfig config key)

/-- Parson sets the value, or the configuration holds it already, and the text
of the new configuration is read back whole. -/
def Sound (format : Decimal → Bytes) (file : File) (key : CStr) (setting : Setting) : Prop :=
  ∀ config value, getConfig file wholeKey = some config → setting.init = some value →
    (∃ members, config = .object members ∧
      (value ≠ none ∧ isReachable members (names key) ∨
        objectDotgetValue (some members) (names key) = setting.asked)) ∧
    (cstr (jsonSerializeToStringPretty format (updateConfig config key value))).length <
      maxConfigFileContent

-- ---------------------------------------------------------------------------
-- The functions over the parsed configuration
-- ---------------------------------------------------------------------------

theorem getConfig_wholeKey (content : Bytes) :
    getConfig (some content) wholeKey = jsonParseString (configText content) := rfl

theorem names_of_not_contains (h : key.1.contains 46 = false) : names key = [key.1] := by
  refine names_of_notMem fun hmem => ?_
  simp [hmem] at h

theorem getConfig_key (hkey : key.1 ≠ []) :
    getConfig file key =
      objectDotgetValue (valueGetObject (getConfig file wholeKey)) (names key) := by
  cases file with
  | none => exact (objectDotgetValue_none _).symm
  | some content =>
    rw [getConfig_wholeKey]
    have hlen : 0 < key.1.length := List.length_pos_iff.mpr hkey
    simp only [getConfig, hlen, if_true]
    cases hnested : key.1.contains 46 with
    | true =>
      simp only [if_true, objectDothasValue]
      cases objectDotgetValue (valueGetObject (jsonParseString (configText content))) (names key) <;> rfl
    | false =>
      rw [names_of_not_contains hnested]
      simp only [Bool.false_eq_true, if_false, objectHasValue, objectDotgetValue]
      cases objectGetValue (valueGetObject (jsonParseString (configText content))) key.1 <;> rfl

theorem updateConfig_object (members : Object) (key : CStr) (v : Value) :
    updateConfig (.object members) key (some v) = .object (objectDotsetValue members (names key) v) := by
  cases hnested : key.1.contains 46 with
  | true => simp only [updateConfig, hnested, if_true]
  | false =>
    simp only [updateConfig, hnested, names_of_not_contains hnested, objectDotsetValue,
      Bool.false_eq_true, if_false]

theorem asked_of_init (h : setting.init = some (some v)) : setting.asked = some v := by
  cases setting with
  | bool casted => simpa [Setting.init, Setting.asked, valueInitBoolean] using h
  | null => simpa [Setting.init, Setting.asked, valueInitNull] using h
  | string casted =>
    simp only [Setting.init, valueInitString, Option.some.injEq] at h
    split at h
    · exact h
    · contradiction
  | number casted =>
    simp only [Setting.init, valueInitNumber, Option.some.injEq] at h
    split at h
    · exact h
    · contradiction
  | value casted hasParent =>
    cases hasParent with
    | true => simp [Setting.init] at h
    | false => simpa [Setting.init, Setting.asked] using h
  | other => contradiction

theorem asked_ne_none (h : setting.init = some value) : setting.asked ≠ none := by
  cases setting with
  | other => contradiction
  | _ => simp [Setting.asked]

theorem setConfig_of_written (format : Decimal → Bytes) (h : written file key setting = some v) :
    setConfig format file key setting =
      (true, some (cstr (jsonSerializeToStringPretty format v))) := by
  obtain ⟨config, hconfig, hinit⟩ := Option.bind_eq_some_iff.mp h
  obtain ⟨value, hvalue, rfl⟩ := Option.map_eq_some_iff.mp hinit
  simp [setConfig, hconfig, hvalue, writeConfigData]

theorem setConfig_of_not_written (format : Decimal → Bytes) (h : written file key setting = none) :
    setConfig format file key setting = (false, file) := by
  unfold setConfig
  cases hconfig : getConfig file wholeKey with
  | none => rfl
  | some config =>
    cases hinit : setting.init with
    | none => rfl
    | some value => simp [written, hconfig, hinit] at h

theorem configText_cstr (h : (cstr text).length < maxConfigFileContent) :
    configText (cstr text) = cstr text := by
  have htake : (cstr text).take (maxConfigFileContent - 1) = cstr text :=
    List.take_of_length_le (Nat.le_sub_one_of_lt h)
  rw [configText, htake, cstr_eq_self (zero_notMem_cstr text)]

section Written

variable {v : Value}

theorem getConfig_of_parse {v' : Value} (hparse : jsonParse (cstr (jsonSerializeToStringPretty format v)) = some (v', []))
    (hfits : (cstr (jsonSerializeToStringPretty format v)).length < maxConfigFileContent) :
    getConfig (some (cstr (jsonSerializeToStringPretty format v))) wholeKey = some v' := by
  rw [getConfig_wholeKey, configText_cstr hfits, jsonParseString_eq, hparse]
  rfl

theorem getConfig_of_fits (hundone : Undone format v)
    (hfits : (cstr (jsonSerializeToStringPretty format v)).length < maxConfigFileContent) :
    getConfig (some (cstr (jsonSerializeToStringPretty format v))) wholeKey = some v :=
  getConfig_of_parse hundone hfits

theorem getConfig_of_not_fits (hundone : Undone format v)
    (hlarge : ¬ (cstr (jsonSerializeToStringPretty format v)).length < maxConfigFileContent)
    (hkey : key.1 ≠ []) : getConfig (some (cstr (jsonSerializeToStringPretty format v))) key = none := by
  have hzero := zero_notMem_cstr (jsonSerializeToStringPretty format v)
  have hcut : configText (cstr (jsonSerializeToStringPretty format v)) =
      (cstr (jsonSerializeToStringPretty format v)).take (maxConfigFileContent - 1) :=
    cstr_eq_self fun hmem => hzero (List.mem_of_mem_take hmem)
  have hlt : maxConfigFileContent - 1 < (cstr (jsonSerializeToStringPretty format v)).length :=
    Nat.lt_of_lt_of_le (by decide) (Nat.not_lt.mp hlarge)
  have hobject : valueGetObject (getConfig (some (cstr (jsonSerializeToStringPretty format v))) wholeKey) =
      none := by
    rw [getConfig_wholeKey, hcut, jsonParseString_eq]
    cases hparse : jsonParse ((cstr (jsonSerializeToStringPretty format v)).take (maxConfigFileContent - 1)) with
    | none => rfl
    | some r =>
      obtain ⟨x, left⟩ := r
      cases x with
      | object members => exact absurd hparse (jsonParse_take_ne hundone hlt)
      | _ => rfl
  rw [getConfig_key hkey, hobject, objectDotgetValue_none]

end Written

theorem not_lawful_of_not_object (hkey : key.1 ≠ []) (hwritten : written file key setting = some v)
    (hundone : Undone format v)
    (hfits : (cstr (jsonSerializeToStringPretty format v)).length < maxConfigFileContent)
    (hobject : valueGetObject (some v) = none) : ¬ Lawful format file key setting := by
  intro h
  obtain ⟨x, -, hx⟩ := h.stored (by rw [setConfig_of_written format hwritten])
  rw [setConfig_of_written format hwritten, getConfig_key hkey, getConfig_of_fits hundone hfits, hobject,
    objectDotgetValue_none] at hx
  contradiction

theorem lawful_of_object {members members' : Object} (hkey : key.1 ≠ [])
    (hconfig : getConfig file wholeKey = some (.object members))
    (hwritten : written file key setting = some (.object members'))
    (hundone : Undone format (.object members'))
    (hfits : (cstr (jsonSerializeToStringPretty format (.object members'))).length < maxConfigFileContent) :
    Lawful format file key setting ↔
      (∃ v, setting.asked = some v ∧ objectDotgetValue (some members') (names key) = some v) ∧
        ∀ key', Apart key key' →
          objectDotgetValue (some members') (names key') = objectDotgetValue (some members) (names key') := by
  have hset := setConfig_of_written format hwritten
  have hnew := getConfig_of_fits hundone hfits
  have hget (key' : CStr) (hkey' : key'.1 ≠ []) :
      getConfig (some (cstr (jsonSerializeToStringPretty format (.object members')))) key' =
        objectDotgetValue (some members') (names key') := by
    rw [getConfig_key hkey', hnew]
    rfl
  have hold (key' : CStr) (hkey' : key'.1 ≠ []) :
      getConfig file key' = objectDotgetValue (some members) (names key') := by
    rw [getConfig_key hkey', hconfig]
    rfl
  constructor
  · rintro ⟨hstored, hframe, -, -⟩
    rw [hset] at hstored hframe
    refine ⟨?_, fun key' hapart => ?_⟩
    · obtain ⟨v, hv, hstored⟩ := hstored rfl
      exact ⟨v, hv, (hget key hkey).symm.trans hstored⟩
    · rw [← hget key' hapart.1, ← hold key' hapart.1]
      exact hframe rfl key' hapart
  · rintro ⟨⟨v, hv, hstored⟩, hframe⟩
    refine ⟨fun _ => ⟨v, hv, ?_⟩, fun _ key' hapart => ?_, fun _ => ?_, fun hfalse => ?_⟩
    · rw [hset, hget key hkey, hstored]
    · rw [hset, hget key' hapart.1, hold key' hapart.1]
      exact hframe key' hapart
    · rw [hset, hnew]
      simp
    · rw [hset] at hfalse
      contradiction

theorem law_of_refused {members : Object} (hinit : setting.init = some none) :
    ((∃ v, setting.asked = some v ∧ objectDotgetValue (some members) (names key) = some v) ∧
        ∀ key', Apart key key' →
          objectDotgetValue (some members) (names key') = objectDotgetValue (some members) (names key')) ↔
      ((none : Option Value) ≠ none ∧ isReachable members (names key) ∨
        objectDotgetValue (some members) (names key) = setting.asked) := by
  constructor
  · rintro ⟨⟨v, hv, hstored⟩, -⟩
    exact .inr (hstored.trans hv.symm)
  · rintro (⟨hnone, -⟩ | hstored)
    · contradiction
    · obtain ⟨v, hv⟩ := Option.ne_none_iff_exists'.mp (asked_ne_none hinit)
      exact ⟨⟨v, hv, hstored.trans hv⟩, fun _ _ => rfl⟩

theorem law_of_set {members : Object} (hinit : setting.init = some (some x)) :
    ((∃ v, setting.asked = some v ∧
          objectDotgetValue (some (objectDotsetValue members (names key) x)) (names key) = some v) ∧
        ∀ key', Apart key key' →
          objectDotgetValue (some (objectDotsetValue members (names key) x)) (names key') =
            objectDotgetValue (some members) (names key')) ↔
      (some x ≠ none ∧ isReachable members (names key) ∨
        objectDotgetValue (some members) (names key) = setting.asked) := by
  have hasked := asked_of_init hinit
  cases hreach : isReachable members (names key) with
  | true =>
    refine iff_of_true ⟨⟨x, hasked, ?_⟩, fun key' hapart => ?_⟩ (.inl ⟨by simp, rfl⟩)
    · exact objectDotgetValue_dotsetValue (names_ne_nil _) hreach x
    · exact objectDotgetValue_dotsetValue_of_not_prefix hapart.2.1 hapart.2.2 members x
  | false =>
    obtain ⟨hset, hget⟩ := objectDotgetValue_of_not_isReachable hreach x
    refine iff_of_false ?_ ?_
    · rintro ⟨⟨v, -, hstored⟩, -⟩
      rw [hset] at hstored
      contradiction
    · rintro (⟨-, hfalse⟩ | hstored)
      · contradiction
      · rw [hget, hasked] at hstored
        contradiction

/-- An update obeys the law exactly where it is sound. -/
theorem lawful_iff (hkey : key.1 ≠ [])
    (hundone : ∀ v, written file key setting = some v → Undone format v) :
    Lawful format file key setting ↔ Sound format file key setting := by
  cases hwritten : written file key setting with
  | none =>
    have hset := setConfig_of_not_written format hwritten
    refine iff_of_true ⟨?_, ?_, ?_, ?_⟩ ?_
    · simp [hset]
    · simp [hset]
    · simp [hset]
    · simp [hset]
    · intro config value hconfig hinit
      simp [written, hconfig, hinit] at hwritten
  | some v =>
    have hundone := hundone v hwritten
    obtain ⟨config, hconfig, hmap⟩ := Option.bind_eq_some_iff.mp hwritten
    obtain ⟨value, hinit, rfl⟩ := Option.map_eq_some_iff.mp hmap
    have hsound : Sound format file key setting ↔
        (∃ members, config = .object members ∧
          (value ≠ none ∧ isReachable members (names key) ∨
            objectDotgetValue (some members) (names key) = setting.asked)) ∧
        (cstr (jsonSerializeToStringPretty format (updateConfig config key value))).length <
          maxConfigFileContent := by
      simp [Sound, hconfig, hinit]
    rw [hsound]
    by_cases hfits : (cstr (jsonSerializeToStringPretty format (updateConfig config key value))).length <
        maxConfigFileContent
    case neg =>
      refine iff_of_false (fun h => ?_) fun h => hfits h.2
      obtain ⟨x, -, hx⟩ := h.stored (by rw [setConfig_of_written format hwritten])
      rw [setConfig_of_written format hwritten, getConfig_of_not_fits hundone hfits hkey] at hx
      contradiction
    rw [and_iff_left hfits]
    cases config with
    | object members =>
      have hexists : (∃ members', Value.object members = .object members' ∧
          (value ≠ none ∧ isReachable members' (names key) ∨
            objectDotgetValue (some members') (names key) = setting.asked)) ↔
          (value ≠ none ∧ isReachable members (names key) ∨
            objectDotgetValue (some members) (names key) = setting.asked) := by
        simp
      rw [hexists]
      cases value with
      | none => exact (lawful_of_object hkey hconfig hwritten hundone hfits).trans (law_of_refused hinit)
      | some x =>
        rw [updateConfig_object] at hwritten hundone hfits
        exact (lawful_of_object hkey hconfig hwritten hundone hfits).trans (law_of_set hinit)
    | _ =>
      refine iff_of_false (not_lawful_of_not_object hkey hwritten hundone hfits rfl) ?_
      rintro ⟨members, hmembers, -⟩
      contradiction

-- ---------------------------------------------------------------------------
-- Runs of updates
-- ---------------------------------------------------------------------------

/-- The updates of a run come with their keys; what they report is not looked
at. -/
def step (format : Decimal → Bytes) (file : File) (update : CStr × Setting) : Option File :=
  some (setConfig format file update.1 update.2).2

-- ---------------------------------------------------------------------------
-- Samples
-- ---------------------------------------------------------------------------

def flagged (flag : Bool) : Value :=
  .object [(bytes "server", .object [(bytes "http", .object [(bytes "trim_large_body", .boolean flag)])])]

def flagKey : CStr := ⟨bytes "server.http.trim_large_body", by decide⟩

theorem lawful_flag : Lawful serializeNumber (some (serialize (flagged false))) flagKey (.bool 1) := by
  have hconfig : getConfig (some (serialize (flagged false))) wholeKey = some (flagged false) := by
    decide +kernel
  have hupdate : updateConfig (flagged false) flagKey (some (.boolean true)) = flagged true := by
    decide +kernel
  have hwritten : written (some (serialize (flagged false))) flagKey (.bool 1) = some (flagged true) := by
    rw [written, hconfig]
    exact congrArg some hupdate
  have hundone : Undone serializeNumber (flagged true) := by
    unfold Undone
    decide +kernel
  refine (lawful_iff (by decide) fun v hv => ?_).mpr fun config value hread hinit => ?_
  · rw [hwritten] at hv
    exact Option.some.inj hv ▸ hundone
  · rw [hconfig] at hread
    obtain rfl := Option.some.inj hread
    obtain rfl := Option.some.inj hinit
    refine ⟨⟨_, rfl, .inl ⟨by simp [valueInitBoolean], by decide +kernel⟩⟩, ?_⟩
    have hlen : (cstr (jsonSerializeToStringPretty serializeNumber (flagged true))).length <
        maxConfigFileContent := by decide +kernel
    rwa [← hupdate] at hlen

def blocked : File := some (serialize (.object [(bytes "server", .string [])]))

def longAddr : CStr := ⟨List.replicate 4096 120, by rw [List.mem_replicate]; decide⟩

def addrKey : CStr := ⟨bytes "server_addr", by decide⟩

theorem not_lawful_blocked : ¬ Lawful serializeNumber blocked flagKey (.bool 1) ∧
    ¬ Lawful serializeNumber blocked addrKey (.string longAddr) := by
  constructor
  · intro h
    have hset : (setConfig serializeNumber blocked flagKey (.bool 1)).1 = true := by decide +kernel
    have hget : getConfig (setConfig serializeNumber blocked flagKey (.bool 1)).2 flagKey = none := by
      decide +kernel
    obtain ⟨v, -, hv⟩ := h.stored hset
    rw [hget] at hv
    exact Option.some_ne_none v hv.symm
  · intro h
    have hset : (setConfig serializeNumber blocked addrKey (.string longAddr)).1 = true := by
      decide +kernel
    have hget : getConfig (setConfig serializeNumber blocked addrKey (.string longAddr)).2 wholeKey = none := by
      decide +kernel
    exact h.readable hset hget

end GeoNS.Configuration
