import GeoNS.Core

/-!
# Tables and defaults

What `create_default_tables` and `insert_default_values` put into the two
databases. Of a schema only the columns and the `UNIQUE` clause are here, less
the key that numbers the rows.
-/

namespace GeoNS.Db

open CString

/-- `unique` is the number of the column that has `UNIQUE`. -/
structure Table where
  name : Bytes
  columns : List Bytes
  unique : Option Nat
  deriving DecidableEq, Repr

def logs : Table where
  name := bytes "logs"
  columns := ["region", "location", "service", "delay", "status", "device", "isp", "internet_type",
    "timestamp"].map bytes
  unique := none

def services : Table where
  name := bytes "services"
  columns := ["service_name", "service_url", "is_local"].map bytes
  unique := some 0

def settings : Table where
  name := bytes "settings"
  columns := ["setting_key", "setting_value"].map bytes
  unique := some 0

def nodesTable : Table where
  name := bytes "nodes"
  columns := ["server", "node_gateway", "status"].map bytes
  unique := none

def geonsLedgerDbTables : List Table := [logs, services]

def geonsLocalDbTables : List Table := [settings, nodesTable]

def defaultTables (isLedger : Bool) : List Table :=
  if isLedger then geonsLedgerDbTables else geonsLocalDbTables

structure Service where
  name : Bytes
  url : Bytes
  isLocal : Bool
  deriving DecidableEq, Repr

def geonsDefaultServices : List Service :=
  [⟨bytes "Github", bytes "https://github.com/", false⟩,
    ⟨bytes "Google", bytes "https://www.google.com/", false⟩,
    ⟨bytes "Gmail", bytes "https://www.google.com/gmail/about/", false⟩,
    ⟨bytes "Android Developer", bytes "https://developer.android.com/", false⟩,
    ⟨bytes "Wikipedia", bytes "https://www.wikipedia.org/", false⟩,
    ⟨bytes "PlayStation", bytes "https://www.playstation.com/en-ie/", false⟩,
    ⟨bytes "Aparat", bytes "https://www.aparat.com/", true⟩,
    ⟨bytes "Filimo", bytes "https://www.filimo.com/", true⟩,
    ⟨bytes "Digikala", bytes "https://www.digikala.com/", true⟩]

end GeoNS.Db
