import GeoNS.Geonsp.Protocol
import GeoNS.Parson.Dotted
import GeoNS.Parson.Locality

/-!
# The configuration manager

The functions of `config.c` over the content of the configuration file, which
is `none` where there is no file. A file that is there is a regular one and
opens, a file that is written is written whole, and allocations succeed.
-/

namespace GeoNS.Configuration

open CString Parson
open Geonsp (Host)

abbrev File := Option Bytes

def defaultGeonsServerAddr : Bytes := bytes "0.0.0.0"
def defaultNodeGatewayPort : Nat := 9060

/-- The string the parser is given: the buffer is cleared, and its last byte
is not read into. -/
def configText (content : Bytes) : Bytes := cstr (content.take (maxConfigFileContent - 1))

def writeConfigData (configData : Bytes) : File := some (cstr configData)

-- ---------------------------------------------------------------------------
-- Getting and setting
-- ---------------------------------------------------------------------------

def getConfig (file : File) (key : CStr) : Option Value :=
  match file with
  | none => none
  | some content =>
    let jsonValue := jsonParseString (configText content)
    if 0 < key.1.length then
      let isNested := key.1.contains 46
      let jsonObject := valueGetObject jsonValue
      let keyExist :=
        if isNested then objectDothasValue jsonObject (names key) else objectHasValue jsonObject key
      if !keyExist then none
      else if isNested then objectDotgetValue jsonObject (names key)
      else objectGetValue jsonObject key
    else jsonValue

def wholeKey : CStr := ⟨[], by simp⟩

/-- A `ValueType` with the value behind the pointer. A value of parson's may
already belong to another one; `other` is a type that is none of them. -/
inductive Setting
  | bool (value : Int)
  | null
  | string (value : CStr)
  | number (value : Decimal)
  | value (value : Value) (hasParent : Bool)
  | other

/-- The value parson is to set, `none` within where it refuses to. -/
def Setting.init : Setting → Option (Option Value)
  | .number casted => some (valueInitNumber casted)
  | .string casted => some (valueInitString casted)
  | .bool casted => some (valueInitBoolean casted)
  | .null => some valueInitNull
  | .value casted hasParent => some (if hasParent then none else some casted)
  | .other => none

/-- What the setters leave of the configuration, whatever they return. -/
def updateConfig (config : Value) (key : CStr) (value : Option Value) : Value :=
  match config, value with
  | .object members, some v =>
    .object (if key.1.contains 46 then objectDotsetValue members (names key) v
      else objectSetValue members key (some v))
  | config, _ => config

/-- `format` is what `sprintf` prints for a number. -/
def setConfig (format : Decimal → Bytes) (file : File) (key : CStr) (setting : Setting) : Bool × File :=
  match getConfig file wholeKey with
  | none => (false, file)
  | some config =>
    match setting.init with
    | none => (false, file)
    | some value =>
      (true, writeConfigData (jsonSerializeToStringPretty format (updateConfig config key value)))

-- ---------------------------------------------------------------------------
-- Starting
-- ---------------------------------------------------------------------------

structure Config where
  geonsServerAddr : Bytes
  nodeGatewayPort : UInt16
  acceptAnyMethod : Bool
  directoryIndexing : Bool
  trimLargeHeaders : Bool
  trimLargeBody : Bool
  serverPort : UInt16
  deriving DecidableEq, Repr

def serverAddrKey : List Bytes := [bytes "server", bytes "server_addr"]
def nodePortKey : List Bytes := [bytes "server", bytes "node", bytes "server_port"]
def httpKey (name : String) : List Bytes := [bytes "server", bytes "http", bytes name]

/-- The keys of the configuration with their values, in the order they are
set. -/
def defaultSettings (isTemplate : Bool) : List (List Bytes × Value) :=
  [(serverAddrKey, .string (if isTemplate then [] else defaultGeonsServerAddr)),
    (nodePortKey, .number (.ofNat (if isTemplate then 0 else defaultNodeGatewayPort))),
    (httpKey "server_port", .number (.ofNat 8000)),
    (httpKey "accept_any_method", .boolean false),
    (httpKey "directory_indexing", .boolean false),
    (httpKey "trim_large_headers", .boolean false),
    (httpKey "trim_large_body", .boolean false)]

def getDefaultConfig (isTemplate : Bool) : Value :=
  .object ((defaultSettings isTemplate).foldl (fun members (key, v) => objectDotsetValue members key v) [])

def isValidConfig (content : Bytes) : Bool :=
  match jsonParseString (configText content) with
  | none => false
  | some jsonValue => jsonValidate (getDefaultConfig true) jsonValue

/-- The numbers of the default configuration are integers. -/
def createDefaultConfig : File :=
  writeConfigData (jsonSerializeToStringPretty serializeNumber (getDefaultConfig false))

def bit (i : Int) : Bool := i % 2 = 1

/-- How `load_config` ends: with `CONFIG` filled, with no configuration to
fill it from, or with a NULL address that is copied. -/
inductive Loading
  | loaded (config : Config)
  | failed
  | fault
  deriving DecidableEq

def loadConfig (host : Host) (file : File) : Loading :=
  match getConfig file wholeKey with
  | none => .failed
  | some config =>
    let configJsonObject := valueGetObject (some config)
    match objectDotgetString configJsonObject serverAddrKey with
    | none => .fault
    | some geonsServerAddr =>
      .loaded
        { geonsServerAddr := cstr (strncpy maxIpv6Length geonsServerAddr ++ [0])
          nodeGatewayPort := host.toUshort (objectDotgetNumber configJsonObject nodePortKey)
          acceptAnyMethod := bit (objectDotgetBoolean configJsonObject (httpKey "accept_any_method"))
          directoryIndexing := bit (objectDotgetBoolean configJsonObject (httpKey "directory_indexing"))
          trimLargeHeaders := bit (objectDotgetBoolean configJsonObject (httpKey "trim_large_headers"))
          trimLargeBody := bit (objectDotgetBoolean configJsonObject (httpKey "trim_large_body"))
          serverPort := host.toUshort (objectDotgetNumber configJsonObject (httpKey "server_port")) }

def initConfigManager (host : Host) (file : File) : Loading × File :=
  let file :=
    match file with
    | none => createDefaultConfig
    | some content => if isValidConfig content then file else createDefaultConfig
  (loadConfig host file, file)

end GeoNS.Configuration
