import GeoNS.Config.Manager

/-!
# Starting with a configuration

A configuration that holds every key with a value of its type is kept, and
loaded as it is, where what is read of the file is the whole of it and its
values fit the fields they are loaded into.
-/

namespace GeoNS.Configuration

open CString Parson
open Geonsp (Host)

variable {host : Host} {file : File} {content : Bytes} {v : Value} {config : Config}

def Denotes (d : Decimal) (n : Nat) : Prop :=
  if 0 ≤ d.exponent then d.mantissa * 10 ^ d.exponent.toNat = n
  else d.mantissa = n * 10 ^ (-d.exponent).toNat

instance (d : Decimal) (n : Nat) : Decidable (Denotes d n) := inferInstanceAs (Decidable (ite _ _ _))

/-- The whole content is a JSON text, with white space behind its value. -/
def Holds (content : Bytes) (v : Value) : Prop :=
  0 ∉ content ∧ ∃ left, jsonParse content = some (v, left) ∧ ∀ c ∈ left, isspace c

def valueOf (v : Value) (path : List Bytes) : Option Value :=
  objectDotgetValue (valueGetObject (some v)) path

/-- Every key of the default configuration is there, with a value of its
type. -/
def HasKeys (v : Value) : Prop :=
  ∀ s ∈ defaultSettings true, (valueOf v s.1).map valueGetType = some (valueGetType s.2)

structure Carries (config : Config) (v : Value) : Prop where
  geonsServerAddr : valueOf v serverAddrKey = some (.string config.geonsServerAddr)
  nodeGatewayPort : ∃ d, valueOf v nodePortKey = some (.number d) ∧
    Denotes d config.nodeGatewayPort.toNat
  acceptAnyMethod : valueOf v (httpKey "accept_any_method") = some (.boolean config.acceptAnyMethod)
  directoryIndexing : valueOf v (httpKey "directory_indexing") = some (.boolean config.directoryIndexing)
  trimLargeHeaders : valueOf v (httpKey "trim_large_headers") = some (.boolean config.trimLargeHeaders)
  trimLargeBody : valueOf v (httpKey "trim_large_body") = some (.boolean config.trimLargeBody)
  serverPort : ∃ d, valueOf v (httpKey "server_port") = some (.number d) ∧
    Denotes d config.serverPort.toNat

/-- A valid configuration is kept and loaded; any other is replaced by the
default one, which is loaded. -/
structure Respected (host : Host) (file : File) : Prop where
  kept : ∀ content v, file = some content → Holds content v → HasKeys v →
    (initConfigManager host file).2 = file ∧
      ∃ config, (initConfigManager host file).1 = .loaded config ∧ Carries config v
  replaced : (∀ content v, file = some content → Holds content v → ¬ HasKeys v) →
    (initConfigManager host file).2 = createDefaultConfig ∧
      ∃ config, (initConfigManager host file).1 = .loaded config ∧
        Carries config (getDefaultConfig false)

/-- The address fits its array, and the ports are numbers of 16 bits. -/
def Representable (v : Value) : Prop :=
  (∀ s, valueOf v serverAddrKey = some (.string s) → s.length ≤ maxIpv6Length ∧ 0 ∉ s) ∧
    ∀ key ∈ [nodePortKey, httpKey "server_port"], ∀ d, valueOf v key = some (.number d) →
      ∃ n < 65536, Denotes d n

/-- A value with every key that stands at the head of the content ends in what
is read of it, and is representable, if nothing but white space follows it;
otherwise it ends behind what is read. -/
def Readable (file : File) : Prop :=
  ∀ content, file = some content → ∀ v left, jsonParse (cstr content) = some (v, left) → HasKeys v →
    if 0 ∉ content ∧ ∀ c ∈ left, isspace c then
      (cstr content).length - left.length < maxConfigFileContent ∧ Representable v
    else maxConfigFileContent ≤ (cstr content).length - left.length

-- ---------------------------------------------------------------------------
-- Validation
-- ---------------------------------------------------------------------------

def Typed (object : Option Object) (path : List Bytes) (t : ValueType) : Prop :=
  (objectDotgetValue object path).map valueGetType = some t

theorem typed_cons (hrest : rest ≠ []) {object : Option Object} :
    Typed object (name :: rest) t ↔
      ∃ child, objectGetValue object name = some (.object child) ∧ Typed (some child) rest t := by
  simp only [Typed, Option.map_eq_some_iff, objectDotgetValue_cons_eq_some hrest]
  constructor
  · rintro ⟨x, ⟨child, hget, hx⟩, ht⟩
    exact ⟨child, hget, x, hx, ht⟩
  · rintro ⟨child, hget, x, hx, ht⟩
    exact ⟨x, ⟨child, hget, hx⟩, ht⟩

theorem typed_of_get {object : Option Object} {child : Object}
    (hget : objectGetValue object name = some (.object child)) (hrest : rest ≠ []) :
    Typed object (name :: rest) t ↔ Typed (some child) rest t := by
  rw [typed_cons hrest]
  constructor
  · rintro ⟨child', hget', h⟩
    cases hget.symm.trans hget'
    exact h
  · intro h
    exact ⟨child, hget, h⟩

theorem template_eq : getDefaultConfig true = .object [(bytes "server", .object
    [(bytes "server_addr", .string []),
      (bytes "node", .object [(bytes "server_port", .number (.ofNat 0))]),
      (bytes "http", .object [(bytes "server_port", .number (.ofNat 8000)),
        (bytes "accept_any_method", .boolean false), (bytes "directory_indexing", .boolean false),
        (bytes "trim_large_headers", .boolean false), (bytes "trim_large_body", .boolean false)])])] := by
  decide +kernel

def IsLeaf (s : Value) : Prop :=
  valueGetType s = .string ∨ valueGetType s = .number ∨ valueGetType s = .boolean

theorem jsonValidate_leaf (hleaf : IsLeaf s) (x : Value) :
    jsonValidate s x ↔ valueGetType x = valueGetType s := by
  rcases hleaf with hs | hs | hs <;> cases s <;> cases hs <;> cases x <;> simp [jsonValidate, valueGetType]

theorem validates_leaf (hleaf : IsLeaf s) {object : Option Object} :
    (∃ x, objectGetValue object name = some x ∧ jsonValidate s x) ↔
      Typed object [name] (valueGetType s) := by
  simp only [Typed, objectDotgetValue, Option.map_eq_some_iff, jsonValidate_leaf hleaf]

theorem validates_object (hdistinct : (schema.map (·.1)).Nodup) {object : Option Object} :
    (∃ x, objectGetValue object name = some x ∧ jsonValidate (.object schema) x) ↔
      ∃ child, objectGetValue object name = some (.object child) ∧
        ∀ m ∈ schema, ∃ x, objectGetValue (some child) m.1 = some x ∧ jsonValidate m.2 x := by
  simp only [jsonValidate_object hdistinct]
  constructor
  · rintro ⟨x, hget, child, rfl, h⟩
    exact ⟨child, hget, h⟩
  · rintro ⟨child, hget, h⟩
    exact ⟨_, hget, child, rfl, h⟩

theorem hasKeys_iff : HasKeys v ↔
    Typed (valueGetObject (some v)) serverAddrKey .string ∧
      Typed (valueGetObject (some v)) nodePortKey .number ∧
      Typed (valueGetObject (some v)) (httpKey "server_port") .number ∧
      Typed (valueGetObject (some v)) (httpKey "accept_any_method") .boolean ∧
      Typed (valueGetObject (some v)) (httpKey "directory_indexing") .boolean ∧
      Typed (valueGetObject (some v)) (httpKey "trim_large_headers") .boolean ∧
      Typed (valueGetObject (some v)) (httpKey "trim_large_body") .boolean := by
  simp [HasKeys, defaultSettings, Typed, valueOf, valueGetType]

theorem jsonValidate_template (v : Value) : jsonValidate (getDefaultConfig true) v ↔ HasKeys v := by
  have hstring : IsLeaf (.string []) := .inl rfl
  have hnumber (n : Nat) : IsLeaf (.number (.ofNat n)) := .inr (.inl rfl)
  have hboolean : IsLeaf (.boolean false) := .inr (.inr rfl)
  rw [template_eq, jsonValidate_object (by decide)]
  simp (disch := decide) only [List.forall_mem_singleton, validates_object, List.forall_mem_cons,
    validates_leaf hstring, validates_leaf (hnumber 0), validates_leaf (hnumber 8000),
    validates_leaf hboolean, hasKeys_iff]
  constructor
  · rintro ⟨members, rfl, server, hserver, haddr, ⟨node, hnode, hport⟩, http, hhttp, hhttpPort, hmethod,
      hindexing, hheaders, hbody⟩
    have inHttp {name : String} {t : ValueType} (h : Typed (some http) [bytes name] t) :
        Typed (some members) (httpKey name) t :=
      (typed_of_get hserver (by simp)).mpr ((typed_of_get hhttp (by simp)).mpr h)
    exact ⟨(typed_of_get hserver (by simp)).mpr haddr,
      (typed_of_get hserver (by simp)).mpr ((typed_of_get hnode (by simp)).mpr hport),
      inHttp hhttpPort, inHttp hmethod, inHttp hindexing, inHttp hheaders, inHttp hbody⟩
  · rintro ⟨haddr, hport, hhttpPort, hmethod, hindexing, hheaders, hbody⟩
    obtain ⟨server, hserver, haddr'⟩ := (typed_cons (by simp)).mp haddr
    obtain ⟨node, hnode, hport'⟩ := (typed_cons (by simp)).mp ((typed_of_get hserver (by simp)).mp hport)
    obtain ⟨http, hhttp, hhttpPort'⟩ :=
      (typed_cons (by simp)).mp ((typed_of_get hserver (by simp)).mp hhttpPort)
    have inHttp {name : String} {t : ValueType} (h : Typed (valueGetObject (some v)) (httpKey name) t) :
        Typed (some http) [bytes name] t :=
      (typed_of_get hhttp (by simp)).mp ((typed_of_get hserver (by simp)).mp h)
    cases v with
    | object members =>
      exact ⟨members, rfl, server, hserver, haddr', ⟨node, hnode, hport'⟩, http, hhttp, hhttpPort',
        inHttp hmethod, inHttp hindexing, inHttp hheaders, inHttp hbody⟩
    | _ => contradiction

theorem HasKeys.ne_number (h : HasKeys v) (d : Decimal) : v ≠ .number d := by
  rintro rfl
  obtain ⟨server, hserver, -⟩ := (typed_cons (by simp)).mp (hasKeys_iff.mp h).1
  contradiction

-- ---------------------------------------------------------------------------
-- What is read
-- ---------------------------------------------------------------------------

theorem configText_eq (content : Bytes) :
    configText content = (cstr content).take (maxConfigFileContent - 1) := by
  unfold configText
  generalize maxConfigFileContent - 1 = n
  induction content generalizing n with
  | nil => simp [cstr]
  | cons c content ih =>
    cases n with
    | zero => simp [cstr]
    | succ n =>
      by_cases hc : c = 0
      · simp [cstr, hc]
      · simpa [cstr, hc] using ih n

/-- The file is accepted where the value at its head has the keys, and ends in
what is read. -/
theorem isValidConfig_iff (content : Bytes) :
    isValidConfig content ↔ ∃ v left, jsonParse (cstr content) = some (v, left) ∧ HasKeys v ∧
      (cstr content).length - left.length < maxConfigFileContent := by
  have hvalid : isValidConfig content ↔
      ∃ v left, jsonParse (configText content) = some (v, left) ∧ HasKeys v := by
    unfold isValidConfig
    rw [jsonParseString_eq]
    cases jsonParse (configText content) with
    | none => simp
    | some r =>
      obtain ⟨v, left⟩ := r
      simpa using jsonValidate_template v
  rw [hvalid, configText_eq]
  constructor
  · rintro ⟨v, left, hparse, hkeys⟩
    obtain ⟨w, hw, htakes⟩ := jsonParse_takes hparse hkeys.ne_number
    have htext : w ++ (left ++ (cstr content).drop (maxConfigFileContent - 1)) = cstr content := by
      rw [← List.append_assoc, ← hw, List.take_append_drop]
    have hwhole := htakes (left ++ (cstr content).drop (maxConfigFileContent - 1))
    rw [htext] at hwhole
    refine ⟨v, _, hwhole, hkeys, ?_⟩
    have hlen := congrArg List.length htext
    have hcut := congrArg List.length hw
    simp only [List.length_append, List.length_take] at hlen hcut ⊢
    simp only [maxConfigFileContent] at hlen hcut ⊢
    omega
  · rintro ⟨v, left, hparse, hkeys, hends⟩
    obtain ⟨w, hw, htakes⟩ := jsonParse_takes hparse hkeys.ne_number
    have hlen : w.length ≤ maxConfigFileContent - 1 := by
      rw [hw, List.length_append, Nat.add_sub_cancel] at hends
      exact Nat.le_sub_one_of_lt hends
    rw [hw, List.take_append, List.take_of_length_le hlen]
    exact ⟨v, _, htakes _, hkeys⟩

theorem getConfig_of_ends (hparse : jsonParse (cstr content) = some (v, left)) (hkeys : HasKeys v)
    (hends : (cstr content).length - left.length < maxConfigFileContent) :
    getConfig (some content) wholeKey = some v := by
  obtain ⟨w, hw, htakes⟩ := jsonParse_takes hparse hkeys.ne_number
  have hlen : w.length ≤ maxConfigFileContent - 1 := by
    rw [hw, List.length_append, Nat.add_sub_cancel] at hends
    exact Nat.le_sub_one_of_lt hends
  have hread : getConfig (some content) wholeKey = jsonParseString (configText content) := rfl
  rw [hread, configText_eq, hw, List.take_append, List.take_of_length_le hlen, jsonParseString_eq,
    htakes]
  rfl

-- ---------------------------------------------------------------------------
-- Loading
-- ---------------------------------------------------------------------------

theorem trunc_of_denotes (h : Denotes d n) : d.trunc = n := by
  unfold Denotes at h
  unfold Decimal.trunc
  split at h
  · rename_i hexp
    rw [if_pos hexp, h]
  · rename_i hexp
    have hpow : (10 : Int) ^ (-d.exponent).toNat ≠ 0 := by positivity
    rw [if_neg hexp, h, Int.mul_tdiv_cancel _ hpow]

theorem toushort_of_denotes (host : Host) (h : Denotes d n) (hn : n < 65536) :
    (host.toUshort d).toNat = n := by
  have htrunc := trunc_of_denotes h
  rw [Host.toUshort, htrunc, if_pos ⟨by omega, by omega⟩]
  simp only [Int.toNat_natCast, UInt16.toNat_ofNat']
  omega

theorem denotes_toushort_iff (host : Host) (d : Decimal) :
    Denotes d (host.toUshort d).toNat ↔ ∃ n < 65536, Denotes d n := by
  constructor
  · intro h
    exact ⟨_, (host.toUshort d).toNat_lt, h⟩
  · rintro ⟨n, hn, h⟩
    rwa [toushort_of_denotes host h hn]

theorem address_iff (s : Bytes) :
    cstr (strncpy maxIpv6Length (cstr s) ++ [0]) = s ↔ s.length ≤ maxIpv6Length ∧ 0 ∉ s := by
  rw [cstr_strncpy_append_zero (zero_notMem_cstr s)]
  constructor
  · intro h
    constructor
    · rw [← h, List.length_take]
      exact Nat.min_le_left _ _
    · rw [← h]
      exact fun hmem => zero_notMem_cstr s (List.mem_of_mem_take hmem)
  · rintro ⟨hlen, hzero⟩
    rw [cstr_eq_self hzero, List.take_of_length_le hlen]

theorem bit_boolean (b : Bool) : bit (valueGetBoolean (some (.boolean b))) = b := by
  cases b <;> decide

theorem Typed.string {object : Option Object} (h : Typed object path .string) :
    ∃ s, objectDotgetValue object path = some (.string s) := by
  obtain ⟨x, hx, ht⟩ := Option.map_eq_some_iff.mp h
  cases x <;> cases ht
  exact ⟨_, hx⟩

theorem Typed.number {object : Option Object} (h : Typed object path .number) :
    ∃ d, objectDotgetValue object path = some (.number d) := by
  obtain ⟨x, hx, ht⟩ := Option.map_eq_some_iff.mp h
  cases x <;> cases ht
  exact ⟨_, hx⟩

theorem Typed.boolean {object : Option Object} (h : Typed object path .boolean) :
    ∃ b, objectDotgetValue object path = some (.boolean b) := by
  obtain ⟨x, hx, ht⟩ := Option.map_eq_some_iff.mp h
  cases x <;> cases ht
  exact ⟨_, hx⟩

/-- A configuration with the keys is loaded; its values are carried where they
are representable. -/
theorem loadConfig_of_hasKeys (host : Host) (hget : getConfig file wholeKey = some v) (hkeys : HasKeys v) :
    ∃ config, loadConfig host file = .loaded config ∧ (Carries config v ↔ Representable v) := by
  obtain ⟨haddr, hnode, hhttp, hmethod, hindexing, hheaders, hbody⟩ := hasKeys_iff.mp hkeys
  obtain ⟨s, hs⟩ := haddr.string
  obtain ⟨d, hd⟩ := hnode.number
  obtain ⟨d', hd'⟩ := hhttp.number
  obtain ⟨b₁, hb₁⟩ := hmethod.boolean
  obtain ⟨b₂, hb₂⟩ := hindexing.boolean
  obtain ⟨b₃, hb₃⟩ := hheaders.boolean
  obtain ⟨b₄, hb₄⟩ := hbody.boolean
  have hload : loadConfig host file = .loaded
      { geonsServerAddr := cstr (strncpy maxIpv6Length (cstr s) ++ [0])
        nodeGatewayPort := host.toUshort d
        acceptAnyMethod := b₁
        directoryIndexing := b₂
        trimLargeHeaders := b₃
        trimLargeBody := b₄
        serverPort := host.toUshort d' } := by
    simp only [loadConfig, hget, objectDotgetString, objectDotgetNumber, objectDotgetBoolean, hs, hd, hd',
      hb₁, hb₂, hb₃, hb₄, bit_boolean, valueGetString, valueGetNumber]
  refine ⟨_, hload, ?_⟩
  constructor
  · intro h
    refine ⟨fun t ht => ?_, fun key hkey e he => ?_⟩
    · have hts : some (Value.string t) = some (.string s) := ht.symm.trans hs
      cases hts
      refine (address_iff s).mp ?_
      have hcarried := h.geonsServerAddr.symm.trans hs
      simpa using hcarried
    · rcases List.mem_pair.mp hkey with rfl | rfl
      · obtain ⟨e', he', hdenotes⟩ := h.nodeGatewayPort
        cases he'.symm.trans he
        cases he'.symm.trans hd
        exact (denotes_toushort_iff host _).mp hdenotes
      · obtain ⟨e', he', hdenotes⟩ := h.serverPort
        cases he'.symm.trans he
        cases he'.symm.trans hd'
        exact (denotes_toushort_iff host _).mp hdenotes
  · rintro ⟨haddr, hports⟩
    have haddr := (address_iff s).mpr (haddr s hs)
    exact
      { geonsServerAddr := by rw [haddr]; exact hs
        nodeGatewayPort := ⟨d, hd, (denotes_toushort_iff host d).mpr (hports _ (by simp) d hd)⟩
        acceptAnyMethod := hb₁
        directoryIndexing := hb₂
        trimLargeHeaders := hb₃
        trimLargeBody := hb₄
        serverPort := ⟨d', hd', (denotes_toushort_iff host d').mpr (hports _ (by simp) d' hd')⟩ }

-- ---------------------------------------------------------------------------
-- The default configuration
-- ---------------------------------------------------------------------------

def defaultText : Bytes := cstr (jsonSerializeToStringPretty serializeNumber (getDefaultConfig false))

theorem createDefaultConfig_eq : createDefaultConfig = some defaultText := rfl

theorem hasKeys_default : HasKeys (getDefaultConfig false) := by
  unfold HasKeys
  decide +kernel

theorem zero_notMem_defaultText : (0 : UInt8) ∉ defaultText := zero_notMem_cstr _

theorem jsonParse_defaultText : jsonParse defaultText = some (getDefaultConfig false, []) := by
  decide +kernel

theorem holds_default : Holds defaultText (getDefaultConfig false) :=
  ⟨zero_notMem_defaultText, [], jsonParse_defaultText, by simp⟩

theorem jsonParse_cstr_defaultText : jsonParse (cstr defaultText) = some (getDefaultConfig false, []) := by
  rw [cstr_eq_self zero_notMem_defaultText, jsonParse_defaultText]

theorem length_defaultText_lt : (cstr defaultText).length - ([] : Bytes).length < maxConfigFileContent := by
  decide +kernel

theorem getConfig_default : getConfig createDefaultConfig wholeKey = some (getDefaultConfig false) := by
  rw [createDefaultConfig_eq]
  exact getConfig_of_ends jsonParse_cstr_defaultText hasKeys_default length_defaultText_lt

theorem isValidConfig_default : isValidConfig defaultText :=
  (isValidConfig_iff defaultText).mpr
    ⟨_, [], jsonParse_cstr_defaultText, hasKeys_default, length_defaultText_lt⟩

theorem representable_default : Representable (getDefaultConfig false) := by
  have haddr : valueOf (getDefaultConfig false) serverAddrKey = some (.string defaultGeonsServerAddr) := by
    decide +kernel
  have hnode : valueOf (getDefaultConfig false) nodePortKey = some (.number (.ofNat 9060)) := by
    decide +kernel
  have hhttp : valueOf (getDefaultConfig false) (httpKey "server_port") = some (.number (.ofNat 8000)) := by
    decide +kernel
  refine ⟨fun s hs => ?_, fun key hkey d hd => ?_⟩
  · cases haddr.symm.trans hs
    decide
  · rcases List.mem_pair.mp hkey with rfl | rfl
    · cases hnode.symm.trans hd
      exact ⟨9060, by decide, by decide⟩
    · cases hhttp.symm.trans hd
      exact ⟨8000, by decide, by decide⟩

theorem loadConfig_default (host : Host) :
    ∃ config, loadConfig host createDefaultConfig = .loaded config ∧
      Carries config (getDefaultConfig false) := by
  obtain ⟨config, hload, hcarries⟩ := loadConfig_of_hasKeys host getConfig_default hasKeys_default
  exact ⟨config, hload, hcarries.mpr representable_default⟩

-- ---------------------------------------------------------------------------
-- Starting
-- ---------------------------------------------------------------------------

theorem initConfigManager_accepted (host : Host) (h : isValidConfig content) :
    initConfigManager host (some content) = (loadConfig host (some content), some content) := by
  simp [initConfigManager, h]

theorem initConfigManager_refused (host : Host) (h : ∀ content, file = some content → ¬ isValidConfig content) :
    initConfigManager host file = (loadConfig host createDefaultConfig, createDefaultConfig) := by
  cases file with
  | none => rfl
  | some content => simp [initConfigManager, h content rfl]

theorem respected_of_refused (host : Host) (h : ∀ content, file = some content → ¬ isValidConfig content) :
    Respected host file ↔ ∀ content v, file = some content → Holds content v → ¬ HasKeys v := by
  have hinit := initConfigManager_refused host h
  obtain ⟨config, hload, hcarries⟩ := loadConfig_default host
  constructor
  · rintro ⟨hkept, -⟩ content v rfl hholds hkeys
    obtain ⟨hfile, -⟩ := hkept content v rfl hholds hkeys
    rw [hinit] at hfile
    exact h defaultText (hfile.symm.trans createDefaultConfig_eq) isValidConfig_default
  · intro hinvalid
    refine ⟨fun content v hfile hholds hkeys => absurd hkeys (hinvalid content v hfile hholds), fun _ => ?_⟩
    have hfile : (initConfigManager host file).2 = createDefaultConfig := by rw [hinit]
    have hloaded : (initConfigManager host file).1 = .loaded config := by rw [hinit, hload]
    exact ⟨hfile, config, hloaded, hcarries⟩

theorem holds_iff (hparse : jsonParse (cstr content) = some (v, left)) :
    Holds content v ↔ 0 ∉ content ∧ ∀ c ∈ left, isspace c := by
  constructor
  · rintro ⟨hzero, left', hparse', hspace⟩
    rw [cstr_eq_self hzero] at hparse
    cases hparse.symm.trans hparse'
    exact ⟨hzero, hspace⟩
  · rintro ⟨hzero, hspace⟩
    rw [cstr_eq_self hzero] at hparse
    exact ⟨hzero, left, hparse, hspace⟩

theorem eq_of_holds (hparse : jsonParse (cstr content) = some (v, left)) (h : Holds content v') : v' = v := by
  obtain ⟨hzero, left', hparse', -⟩ := h
  rw [cstr_eq_self hzero] at hparse
  cases hparse.symm.trans hparse'
  rfl

/-- Where the file is accepted for the value at its head, that value must be
all of it, and representable. -/
theorem respected_of_accepted (host : Host) (hparse : jsonParse (cstr content) = some (v, left))
    (hkeys : HasKeys v) (hends : (cstr content).length - left.length < maxConfigFileContent) :
    Respected host (some content) ↔ Holds content v ∧ Representable v := by
  have hvalid := (isValidConfig_iff content).mpr ⟨v, left, hparse, hkeys, hends⟩
  have hinit := initConfigManager_accepted host hvalid
  obtain ⟨config, hload, hcarries⟩ := loadConfig_of_hasKeys host (getConfig_of_ends hparse hkeys hends) hkeys
  constructor
  · rintro ⟨hkept, hreplaced⟩
    have hholds : Holds content v := by
      by_contra hnot
      obtain ⟨hfile, -⟩ := hreplaced fun content' v' hfile hholds hkeys' => by
        cases hfile
        exact hnot (eq_of_holds hparse hholds ▸ hholds)
      rw [hinit, createDefaultConfig_eq] at hfile
      cases hfile
      exact hnot (eq_of_holds hparse holds_default ▸ holds_default)
    obtain ⟨-, config', hload', hcarries'⟩ := hkept content v rfl hholds hkeys
    rw [hinit, hload] at hload'
    cases hload'
    exact ⟨hholds, hcarries.mp hcarries'⟩
  · rintro ⟨hholds, hrepresentable⟩
    refine ⟨fun content' v' hfile hholds' hkeys' => ?_, fun hinvalid => ?_⟩
    · cases hfile
      cases eq_of_holds hparse hholds'
      rw [hinit]
      exact ⟨rfl, config, hload, hcarries.mpr hrepresentable⟩
    · exact absurd hkeys (hinvalid content v rfl hholds)

/-- The start respects the file exactly where the file is readable. -/
theorem respected_iff (host : Host) (file : File) : Respected host file ↔ Readable file := by
  cases file with
  | none =>
    refine iff_of_true ((respected_of_refused host ?_).mpr ?_) ?_
    · rintro content ⟨⟩
    · rintro content v ⟨⟩
    · rintro content ⟨⟩
  | some content =>
    by_cases hvalid : isValidConfig content
    · obtain ⟨v, left, hparse, hkeys, hends⟩ := (isValidConfig_iff content).mp hvalid
      rw [respected_of_accepted host hparse hkeys hends, holds_iff hparse]
      constructor
      · rintro ⟨hwhole, hrepresentable⟩ content' hfile v' left' hparse' -
        cases hfile
        cases hparse.symm.trans hparse'
        rw [if_pos hwhole]
        exact ⟨hends, hrepresentable⟩
      · intro h
        have hread := h content rfl v left hparse hkeys
        split at hread
        case isTrue hwhole => exact ⟨hwhole, hread.2⟩
        case isFalse => exact absurd hends (Nat.not_lt.mpr hread)
    · have hrefused : ∀ content', some content = some content' → ¬ isValidConfig content' := by
        rintro content' ⟨⟩
        exact hvalid
      have hends {v : Value} {left : Bytes} (hparse : jsonParse (cstr content) = some (v, left))
          (hkeys : HasKeys v) : ¬ (cstr content).length - left.length < maxConfigFileContent :=
        fun hends => hvalid ((isValidConfig_iff content).mpr ⟨v, left, hparse, hkeys, hends⟩)
      rw [respected_of_refused host hrefused]
      constructor
      · rintro h content' ⟨⟩ v left hparse hkeys
        split
        case isTrue hwhole => exact absurd hkeys (h content v rfl ((holds_iff hparse).mpr hwhole))
        case isFalse => exact Nat.not_lt.mp (hends hparse hkeys)
      · rintro h content' v ⟨⟩ hholds hkeys
        obtain ⟨hzero, left, hparse, hspace⟩ := hholds
        have htext : jsonParse (cstr content) = some (v, left) := by rwa [cstr_eq_self hzero]
        have hread := h content rfl v left htext hkeys
        rw [if_pos ⟨hzero, hspace⟩] at hread
        exact hends htext hkeys hread.1

-- ---------------------------------------------------------------------------
-- Samples
-- ---------------------------------------------------------------------------

def withNodePort (port : Nat) : Value :=
  .object ((defaultSettings false ++ [(nodePortKey, Value.number (.ofNat port))]).foldl
    (fun members (key, v) => objectDotsetValue members key v) [])

/-- The port is no number of 16 bits. -/
def largePort : Bytes := cstr (jsonSerializeToStringPretty serializeNumber (withNodePort 70000))

def trailed : Bytes := defaultText ++ bytes "x"

/-- The default configuration behind more white space than is read. -/
def padded : Bytes := List.replicate 4096 32 ++ defaultText

theorem not_respected_largePort : (∀ host, ¬ Respected host (some largePort)) ∧
    (∀ host, ¬ Respected host (some trailed)) ∧ ∀ host, ¬ Respected host (some padded) := by
  refine ⟨fun host h => ?_, fun host h => ?_, fun host h => ?_⟩
  · have hparse : jsonParse (cstr largePort) = some (withNodePort 70000, []) := by decide +kernel
    have hkeys : HasKeys (withNodePort 70000) := by
      unfold HasKeys
      decide +kernel
    obtain ⟨-, -, hports⟩ := (respected_of_accepted host hparse hkeys (by decide +kernel)).mp h
    have hport : valueOf (withNodePort 70000) nodePortKey = some (.number (.ofNat 70000)) := by
      decide +kernel
    obtain ⟨n, hn, hdenotes⟩ := hports nodePortKey (by simp) _ hport
    have htrunc := trunc_of_denotes hdenotes
    simp [Decimal.trunc, Decimal.ofNat] at htrunc
    omega
  · have hparse : jsonParse (cstr trailed) = some (getDefaultConfig false, bytes "x") := by decide +kernel
    obtain ⟨hholds, -⟩ := (respected_of_accepted host hparse hasKeys_default (by decide +kernel)).mp h
    obtain ⟨-, hspace⟩ := (holds_iff hparse).mp hholds
    exact absurd hspace (by decide +kernel)
  · have hrefused : ∀ content, some padded = some content → ¬ isValidConfig content := by
      intro content hcontent
      rw [← Option.some.inj hcontent]
      decide +kernel
    have hholds : Holds padded (getDefaultConfig false) := by
      refine ⟨by decide +kernel, [], by decide +kernel, by simp⟩
    exact (respected_of_refused host hrefused).mp h padded _ rfl hholds hasKeys_default

end GeoNS.Configuration
