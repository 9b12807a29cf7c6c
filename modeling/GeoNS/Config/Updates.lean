import GeoNS.Parson.Alike
import GeoNS.Config.Startup
import GeoNS.Config.Store

/-!
# Runs of updates

Every call of `set_config` reads the file, parses it, and writes it anew. Over
a run of calls the file stands for one object in memory that the setters of
parson change, as long as what is written is shorter than what is read; and the
next start keeps what the run left. A number may be in the file as another decimal:
what is read of what the writer prints for it.
-/

namespace GeoNS.Configuration

open CString Parson
open Geonsp (Host)

variable {format : Decimal → Bytes} {file file' : File} {members : Object}
variable {updates : List (CStr × Setting)} {u : CStr × Setting}

/-- What is read of the number's text is printed alike: the code has one double for both. -/
structure Stable (format : Decimal → Bytes) (d : Decimal) : Prop where
  prints : Prints format d
  again : format (readBack format d) = format d

/-- A number as it was set, or as it was read of its text. -/
def Reread (format : Decimal → Bytes) (d d' : Decimal) : Prop := d' = d ∨ d' = readBack format d

/-- The numbers are stable, and a value is one of parson's. -/
def Setting.Printable (format : Decimal → Bytes) : Setting → Prop
  | .number casted => Stable format casted
  | .value casted _ => WellFormed (Stable format) casted
  | _ => True

/-- What an update does to the configuration in memory. -/
def apply (members : Object) (update : CStr × Setting) : Object :=
  match update.2.init with
  | some (some v) => objectDotsetValue members (names update.1) v
  | _ => members

/-- The text an update writes is shorter than what is read of the file. -/
def Fits (format : Decimal → Bytes) (file : File) (update : CStr × Setting) : Prop :=
  ∀ v, written file update.1 update.2 = some v →
    (cstr (jsonSerializeToStringPretty format v)).length < maxConfigFileContent

instance (format : Decimal → Bytes) (file : File) (update : CStr × Setting) :
    Decidable (Fits format file update) :=
  inferInstanceAs (Decidable (∀ v ∈ written file update.1 update.2,
    (cstr (jsonSerializeToStringPretty format v)).length < maxConfigFileContent))

/-- The file stands for the object. -/
structure Keeps (format : Decimal → Bytes) (members : Object) (file : File) : Prop where
  read : ∃ members', getConfig file wholeKey = some (.object members') ∧
    AlikeMembers (Reread format) members members'
  wellFormed : WellFormed (Stable format) (.object members)

-- ---------------------------------------------------------------------------
-- Numbers
-- ---------------------------------------------------------------------------

theorem Reread.format_eq (h : Stable format d) (hread : Reread format d d') : format d' = format d := by
  rcases hread with rfl | rfl
  · rfl
  · exact h.again

theorem Reread.readBack_eq (h : Stable format d) (hread : Reread format d d') :
    readBack format d' = readBack format d :=
  Parson.readBack_eq (by rw [hread.format_eq h]; exact h.prints.read)

theorem Reread.stable (h : Stable format d) (hread : Reread format d d') : Stable format d' := by
  have htext := hread.format_eq h
  have hback := hread.readBack_eq h
  obtain ⟨⟨hzero, hstart, hprinted⟩, hagain⟩ := h
  exact ⟨⟨htext ▸ hzero, htext ▸ hstart, by rw [htext, hback, hprinted]⟩, by rw [hback, htext, hagain]⟩

theorem stable_ofNat (hk : (Decimal.ofNat k).finite) : Stable serializeNumber (.ofNat k) :=
  ⟨prints_ofNat hk, by rw [readBack_ofNat hk]⟩

theorem prints_of_stable {v : Value} (h : WellFormed (Stable format) v) : WellFormed (Prints format) v := by
  have hsame : Parson.Alike Eq v v := h.alike_refl fun _ _ => rfl
  exact h.alike hsame fun _ _ hd heq => heq ▸ hd.prints

-- ---------------------------------------------------------------------------
-- One update
-- ---------------------------------------------------------------------------

theorem Setting.Printable.wellFormed {setting : Setting} (h : setting.Printable format)
    (hinit : setting.init = some (some v)) : WellFormed (Stable format) v := by
  have hasked := asked_of_init hinit
  cases setting with
  | bool casted =>
    cases hasked
    exact .boolean _
  | null =>
    cases hasked
    exact .null
  | string casted =>
    cases hasked
    exact .string casted
  | number casted =>
    cases hasked
    exact .number h
  | value casted hasParent =>
    cases hasked
    exact h
  | other => contradiction

theorem wellFormed_apply (h : WellFormed (Stable format) (.object members)) (hu : u.2.Printable format) :
    WellFormed (Stable format) (.object (apply members u)) := by
  unfold Configuration.apply
  split
  · rename_i v hinit
    exact h.dotsetValue (zero_notMem_names u.1) (hu.wellFormed hinit)
  · exact h

theorem alike_apply {members' : Object} (h : AlikeMembers (Reread format) members members')
    (hu : u.2.Printable format) : AlikeMembers (Reread format) (apply members u) (apply members' u) := by
  unfold Configuration.apply
  split
  · rename_i v hinit
    exact h.dotsetValue _ ((hu.wellFormed hinit).alike_refl fun _ _ => .inl rfl)
  · exact h

theorem parse_written {v : Value} (h : WellFormed (Prints format) v) (hobject : ∀ d, v ≠ .number d)
    (hfits : (cstr (jsonSerializeToStringPretty format v)).length < maxConfigFileContent) :
    jsonParse (cstr (jsonSerializeToStringPretty format v)) = some (v.mapNumbers (readBack format), []) := by
  have hzero : (0 : UInt8) ∉ jsonSerializeToStringPretty format v := zero_notMem_serializePretty h 0
  rw [cstr_eq_self hzero] at hfits ⊢
  have hdepth : depth v ≤ maxNesting := by
    have hbrackets : 2 * depth v ≤ (serializePretty format 0 v).length := two_mul_depth_le h 0
    rw [jsonSerializeToStringPretty] at hfits
    simp only [maxConfigFileContent, maxNesting] at hfits ⊢
    omega
  have hread := jsonParse_pretty h hdepth [] fun d hd => absurd hd (hobject d)
  rwa [List.append_nil] at hread

theorem Keeps.setConfig (h : Keeps format members file) (hu : u.2.Printable format)
    (hfits : Fits format file u) :
    Keeps format (apply members u) (setConfig format file u.1 u.2).2 := by
  obtain ⟨members', hread, halike⟩ := h.read
  have hwell := wellFormed_apply h.wellFormed hu
  have halike' := alike_apply halike hu
  cases hinit : u.2.init with
  | none =>
    have hwritten : written file u.1 u.2 = none := by simp [written, hread, hinit]
    rw [setConfig_of_not_written format hwritten]
    simpa [apply, hinit] using h
  | some value =>
    have hupdate : updateConfig (.object members') u.1 value = .object (apply members' u) := by
      cases value with
      | none => simp [apply, hinit, updateConfig]
      | some v => simp [apply, hinit, updateConfig_object]
    have hwritten : written file u.1 u.2 = some (.object (apply members' u)) := by
      simp [written, hread, hinit, hupdate]
    have hfits := hfits _ hwritten
    have hfile := alike_object_iff.mpr ⟨_, rfl, halike'⟩
    have hstable : WellFormed (Stable format) (.object (apply members' u)) :=
      hwell.alike hfile fun _ _ hd hread => hread.stable hd
    rw [setConfig_of_written format hwritten]
    refine ⟨?_, hwell⟩
    obtain ⟨reread, heq, hreread⟩ := alike_object_iff.mp
      (hfile.mapNumbers hwell fun _ _ hd hread => .inr (hread.readBack_eq hd))
    refine ⟨reread, ?_, hreread⟩
    rw [← heq]
    exact getConfig_of_parse (parse_written (prints_of_stable hstable) (by simp) hfits) hfits

theorem Keeps.get (h : Keeps format members file) {key : CStr} (hkey : key.1 ≠ []) :
    Option.Rel (Alike (Reread format)) (objectDotgetValue (some members) (names key)) (getConfig file key) := by
  obtain ⟨members', hread, halike⟩ := h.read
  rw [getConfig_key hkey, hread]
  exact dotgetValue_alike (.some halike) _

-- ---------------------------------------------------------------------------
-- Runs
-- ---------------------------------------------------------------------------

theorem Keeps.run (h : Keeps format members file) (hupdates : ∀ u ∈ updates, u.2.Printable format)
    (hfits : Runs.Each (step format) (Fits format) file updates)
    (hrun : Runs.run (step format) file updates = some file') :
    Keeps format (updates.foldl apply members) file' := by
  induction updates generalizing file members with
  | nil => exact Option.some.inj hrun ▸ h
  | cons u updates ih =>
    obtain ⟨hu, hupdates⟩ := List.forall_mem_cons.mp hupdates
    obtain ⟨file₁, hstep, hrest⟩ := Runs.run_cons.mp hrun
    cases hstep
    exact ih (h.setConfig hu hfits.1) hupdates (hfits.2 _ rfl) hrest

theorem keeps_of_config (hconfig : getConfig file wholeKey = some (.object members))
    (hprints : ∀ d ∈ memberNumbers members, Stable format d) : Keeps format members file := by
  have hwell : WellFormed (Stable format) (.object members) := by
    cases file with
    | none => contradiction
    | some content =>
      rw [getConfig_wholeKey, jsonParseString_eq] at hconfig
      obtain ⟨⟨v, left⟩, hparse, heq⟩ := Option.map_eq_some_iff.mp hconfig
      obtain rfl : v = .object members := heq
      exact (accepted_of_jsonParse hparse).wellFormed.of_numbers fun d hd => hprints d (by rwa [numbers] at hd)
  have hsame : Parson.Alike (Reread format) (.object members) (.object members) :=
    hwell.alike_refl fun _ _ => .inl rfl
  obtain ⟨_, heq, halike⟩ := alike_object_iff.mp hsame
  cases heq
  exact ⟨⟨members, hconfig, halike⟩, hwell⟩

-- ---------------------------------------------------------------------------
-- The next start
-- ---------------------------------------------------------------------------

/-- An update of a key that the start validates is of the key's type, and any
other is apart from all of these. -/
def Respects (update : CStr × Setting) : Prop :=
  ∀ s ∈ defaultSettings true,
    (names update.1 = s.1 ∧ ∀ v ∈ update.2.init.join, valueGetType v = valueGetType s.2) ∨
      ¬ names update.1 <+: s.1 ∧ ¬ s.1 <+: names update.1

instance (update : CStr × Setting) : Decidable (Respects update) :=
  inferInstanceAs (Decidable (∀ s ∈ defaultSettings true,
    (names update.1 = s.1 ∧ ∀ v ∈ update.2.init.join, valueGetType v = valueGetType s.2) ∨
      ¬ names update.1 <+: s.1 ∧ ¬ s.1 <+: names update.1))

theorem isReachable_of_get {path : List Bytes} (h : objectDotgetValue (some members) path = some v) :
    isReachable members path := by
  by_contra hnot
  rw [(objectDotgetValue_of_not_isReachable (Bool.not_eq_true _ ▸ hnot) .null).2] at h
  contradiction

theorem typed_apply {path : List Bytes} (hpath : path ≠ []) (h : Typed (some members) path t)
    (hu : (names u.1 = path ∧ ∀ v ∈ u.2.init.join, valueGetType v = t) ∨
      ¬ names u.1 <+: path ∧ ¬ path <+: names u.1) : Typed (some (apply members u)) path t := by
  unfold apply
  split
  case h_2 => exact h
  rename_i v hinit
  rcases hu with ⟨rfl, htype⟩ | ⟨hp, hq⟩
  · obtain ⟨x, hx, -⟩ := Option.map_eq_some_iff.mp h
    rw [Typed, objectDotgetValue_dotsetValue hpath (isReachable_of_get hx), Option.map_some,
      htype v (by simp [hinit])]
  · rwa [Typed, objectDotgetValue_dotsetValue_of_not_prefix hp hq]

theorem hasKeys_apply (h : HasKeys (.object members)) (hu : Respects u) :
    HasKeys (.object (apply members u)) := by
  intro s hs
  have hpath : ∀ s ∈ defaultSettings true, s.1 ≠ [] := by decide
  exact typed_apply (hpath s hs) (h s hs) (hu s hs)

theorem hasKeys_foldl (h : HasKeys (.object members)) (hupdates : ∀ u ∈ updates, Respects u) :
    HasKeys (.object (updates.foldl apply members)) := by
  induction updates generalizing members with
  | nil => exact h
  | cons u updates ih =>
    obtain ⟨hu, hupdates⟩ := List.forall_mem_cons.mp hupdates
    exact ih (hasKeys_apply h hu) hupdates

theorem hasKeys_of_init (host : Host) (h : getConfig (initConfigManager host file).2 wholeKey = some v) :
    HasKeys v := by
  by_cases hvalid : ∃ content, file = some content ∧ isValidConfig content
  · obtain ⟨content, rfl, hvalid⟩ := hvalid
    obtain ⟨v', left, hparse, hkeys, hends⟩ := (isValidConfig_iff content).mp hvalid
    rw [initConfigManager_accepted host hvalid, getConfig_of_ends hparse hkeys hends] at h
    exact Option.some.inj h ▸ hkeys
  · rw [initConfigManager_refused host fun content hfile hc => hvalid ⟨content, hfile, hc⟩,
      getConfig_default] at h
    exact Option.some.inj h ▸ hasKeys_default

theorem initConfigManager_of_hasKeys (host : Host) (hget : getConfig file wholeKey = some v)
    (hkeys : HasKeys v) : initConfigManager host file = (loadConfig host file, file) := by
  cases file with
  | none => contradiction
  | some content =>
    refine initConfigManager_accepted host ?_
    have hread : jsonParseString (configText content) = some v := hget
    rw [isValidConfig, hread]
    exact (jsonValidate_template v).mpr hkeys

-- ---------------------------------------------------------------------------
-- What the next start loads
-- ---------------------------------------------------------------------------

/-- A port is printed in its digits. -/
def PrintsDigits (format : Decimal → Bytes) : Prop := ∀ d, ∀ n < 65536, Denotes d n → format d = dec n

theorem printsDigits_serializeNumber : PrintsDigits serializeNumber := by
  intro d n hn hd
  rw [serializeNumber, trunc_of_denotes hd, if_neg (by omega), Int.natAbs_natCast]

theorem denotes_ofNat (n : Nat) : Denotes (.ofNat n) n := by simp [Denotes, Decimal.ofNat]

theorem PrintsDigits.readBack (hdigits : PrintsDigits format) (hn : n < 65536) (hd : Denotes d n) :
    readBack format d = .ofNat n := by
  have hread := parseNumberValue_ofNat (finite_ofNat hn)
  rw [serializeNumber_ofNat] at hread
  exact readBack_eq (by rwa [hdigits d n hn hd])

theorem PrintsDigits.denotes (hdigits : PrintsDigits format) (hread : Reread format d d') (hn : n < 65536)
    (hd : Denotes d n) : Denotes d' n := by
  rcases hread with rfl | rfl
  · exact hd
  · rw [hdigits.readBack hn hd]
    exact denotes_ofNat n

section

variable {members' : Object} (h : AlikeMembers (Reread format) members members')
include h

theorem valueOf_alike (path : List Bytes) :
    Option.Rel (Alike (Reread format)) (valueOf (.object members) path) (valueOf (.object members') path) :=
  dotgetValue_alike (.some h) path

theorem hasKeys_alike (hkeys : HasKeys (.object members)) : HasKeys (.object members') := by
  intro s hs
  rw [← valueGetType_found (valueOf_alike h s.1)]
  exact hkeys s hs

theorem representable_alike (hdigits : PrintsDigits format) (hfit : Representable (.object members)) :
    Representable (.object members') := by
  obtain ⟨haddr, hports⟩ := hfit
  refine ⟨fun s hs => haddr s ((string_found (valueOf_alike h _) s).mpr hs), fun key hkey d' hd' => ?_⟩
  obtain ⟨d, hd, hread⟩ := number_found (valueOf_alike h key) hd'
  obtain ⟨n, hn, hdenotes⟩ := hports key hkey d hd
  exact ⟨n, hn, hdigits.denotes hread hn hdenotes⟩

theorem port_alike (hdigits : PrintsDigits format) (hfit : Representable (.object members))
    (hkey : key ∈ [nodePortKey, httpKey "server_port"])
    (hport : ∃ d', valueOf (.object members') key = some (.number d') ∧ Denotes d' k) :
    ∃ d, valueOf (.object members) key = some (.number d) ∧ Denotes d k := by
  obtain ⟨d', hd', hk⟩ := hport
  obtain ⟨d, hd, hread⟩ := number_found (valueOf_alike h key) hd'
  obtain ⟨n, hn, hdenotes⟩ := hfit.2 key hkey d hd
  have heq : (n : Int) = k := (trunc_of_denotes (hdigits.denotes hread hn hdenotes)).symm.trans (trunc_of_denotes hk)
  obtain rfl : n = k := Int.ofNat_inj.mp heq
  exact ⟨d, hd, hdenotes⟩

theorem carries_alike (hdigits : PrintsDigits format) (hfit : Representable (.object members))
    (hcarries : Carries config (.object members')) : Carries config (.object members) where
  geonsServerAddr := (string_found (valueOf_alike h _) _).mpr hcarries.geonsServerAddr
  nodeGatewayPort := port_alike h hdigits hfit (by simp) hcarries.nodeGatewayPort
  acceptAnyMethod := (boolean_found (valueOf_alike h _) _).mpr hcarries.acceptAnyMethod
  directoryIndexing := (boolean_found (valueOf_alike h _) _).mpr hcarries.directoryIndexing
  trimLargeHeaders := (boolean_found (valueOf_alike h _) _).mpr hcarries.trimLargeHeaders
  trimLargeBody := (boolean_found (valueOf_alike h _) _).mpr hcarries.trimLargeBody
  serverPort := port_alike h hdigits hfit (by simp) hcarries.serverPort

end

-- ---------------------------------------------------------------------------
-- Samples
-- ---------------------------------------------------------------------------

/-- Two keys of the start, a key that it does not know, and one set again. -/
def sampleUpdates : List (CStr × Setting) :=
  [(flagKey, .bool 1), (⟨bytes "server.node.server_port", by decide⟩, .number (.ofNat 9061)),
    (⟨bytes "note", by decide⟩, .string ⟨bytes "a/b", by decide⟩), (flagKey, .bool 0)]

def startHost : Host := ⟨bytes "Jan  1 2025, 00:00:00", .strict, fun _ => 0⟩

def defaultMembers : Object := (valueGetObject (getDefaultConfig false)).getD []

theorem printable_sampleUpdates : ∀ u ∈ sampleUpdates, u.2.Printable serializeNumber := by
  simp only [sampleUpdates, List.forall_mem_cons]
  exact ⟨trivial, stable_ofNat (finite_ofNat (by decide)), trivial, trivial, by simp⟩

theorem getConfig_defaultMembers : getConfig createDefaultConfig wholeKey = some (.object defaultMembers) := by
  rw [getConfig_default]
  decide +kernel

theorem stable_defaultMembers : ∀ d ∈ memberNumbers defaultMembers, Stable serializeNumber d := by
  have hnumbers : memberNumbers defaultMembers = [.ofNat 9060, .ofNat 8000] := by decide +kernel
  rw [hnumbers]
  simp only [List.forall_mem_cons]
  exact ⟨stable_ofNat (finite_ofNat (by decide)), stable_ofNat (finite_ofNat (by decide)), by simp⟩

theorem fits_sampleUpdates :
    Runs.Each (step serializeNumber) (Fits serializeNumber) createDefaultConfig sampleUpdates := by
  decide +kernel

-- ---------------------------------------------------------------------------
-- Results
-- ---------------------------------------------------------------------------

/-- Over any run of updates, the file is the object that the setters would have
changed in memory. -/
theorem config_of_run (hconfig : getConfig file wholeKey = some (.object members))
    (hstable : ∀ d ∈ memberNumbers members, Stable format d)
    (hupdates : ∀ u ∈ updates, u.2.Printable format)
    (hfits : Runs.Each (step format) (Fits format) file updates)
    (hrun : Runs.run (step format) file updates = some file') :
    (∃ members', getConfig file' wholeKey = some (.object members') ∧
      AlikeMembers (Reread format) (updates.foldl apply members) members') ∧
      ∀ key : CStr, key.1 ≠ [] →
        Option.Rel (Alike (Reread format)) (objectDotgetValue (some (updates.foldl apply members)) (names key))
          (getConfig file' key) := by
  have hkeeps := (keeps_of_config hconfig hstable).run hupdates hfits hrun
  exact ⟨hkeeps.read, fun key hkey => hkeeps.get hkey⟩

theorem config_of_run_sample : ∃ file',
    Runs.run (step serializeNumber) createDefaultConfig sampleUpdates = some file' ∧
      getConfig file' flagKey = some (.boolean false) := by
  obtain ⟨-, hget⟩ := config_of_run getConfig_defaultMembers stable_defaultMembers printable_sampleUpdates
    fits_sampleUpdates rfl
  have hflag : objectDotgetValue (some (sampleUpdates.foldl apply defaultMembers)) (names flagKey) =
      some (.boolean false) := by decide +kernel
  have hread := hget flagKey (by decide)
  rw [hflag] at hread
  exact ⟨_, rfl, (boolean_found hread false).mp rfl⟩

/-- After a start and a run of updates that respect the keys, the next start
keeps the file, and loads the values that the updates left. -/
theorem restart_of_run (host : Host)
    (hconfig : getConfig (initConfigManager host file).2 wholeKey = some (.object members))
    (hstable : ∀ d ∈ memberNumbers members, Stable format d)
    (hdigits : PrintsDigits format)
    (hupdates : ∀ u ∈ updates, u.2.Printable format ∧ Respects u)
    (hfits : Runs.Each (step format) (Fits format) (initConfigManager host file).2 updates)
    (hrun : Runs.run (step format) (initConfigManager host file).2 updates = some file') :
    (initConfigManager host file').2 = file' ∧
      ∃ config, (initConfigManager host file').1 = .loaded config ∧
        (Representable (.object (updates.foldl apply members)) →
          Carries config (.object (updates.foldl apply members))) := by
  have hkeeps := (keeps_of_config hconfig hstable).run (fun u hu => (hupdates u hu).1) hfits hrun
  have hkeys := hasKeys_foldl (hasKeys_of_init host hconfig) fun u hu => (hupdates u hu).2
  obtain ⟨members', hread, halike⟩ := hkeeps.read
  have hkeys' := hasKeys_alike halike hkeys
  obtain ⟨config, hload, hcarries⟩ := loadConfig_of_hasKeys host hread hkeys'
  rw [initConfigManager_of_hasKeys host hread hkeys']
  refine ⟨rfl, config, hload, fun hfit => ?_⟩
  exact carries_alike halike hdigits hfit (hcarries.mpr (representable_alike halike hdigits hfit))

theorem restart_of_run_sample : ∃ file',
    Runs.run (step serializeNumber) (initConfigManager startHost none).2 sampleUpdates = some file' ∧
      (initConfigManager startHost file').2 = file' := by
  have hconfig : getConfig (initConfigManager startHost none).2 wholeKey = some (.object defaultMembers) :=
    getConfig_defaultMembers
  have hrespects : ∀ u ∈ sampleUpdates, Respects u := by decide +kernel
  have hkept := restart_of_run startHost hconfig stable_defaultMembers printsDigits_serializeNumber
    (fun u hu => ⟨printable_sampleUpdates u hu, hrespects u hu⟩) fits_sampleUpdates rfl
  exact ⟨_, rfl, hkept.1⟩

end GeoNS.Configuration
