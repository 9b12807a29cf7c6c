import GeoNS.KeyedList
import GeoNS.Runs
import GeoNS.Db.Schema

/-!
# Rounds of connecting

`db_connect` creates the tables and puts the default values into them. Here is
what it leaves in a database file, for files that open, statements that fit
their buffer, and rows that other operations insert between one round and the
next. `CHECK` refuses some of those rows; all that keep `UNIQUE` are let in.
-/

namespace GeoNS.Db.Rounds

open CString

-- ---------------------------------------------------------------------------
-- Files
-- ---------------------------------------------------------------------------

/-- A number is kept as the text that SQLite prints for it. -/
inductive Value
  | null
  | number (text : Bytes)
  | text (v : Bytes)
  | blob (v : Bytes)
  deriving DecidableEq, Repr

def Value.columnText : Value → Option Bytes
  | .null => none
  | .number v | .text v | .blob v => some v

abbrev Row := List Value

/-- What `UNIQUE` looks at, which lets NULL repeat. -/
def rowKey (table : Table) (row : Row) : Option Value :=
  (table.unique.bind fun i => row[i]?).filter (· ≠ .null)

structure Stored where
  table : Table
  rows : List Row
  distinct : KeyedList.Distinct (rowKey table) rows
  deriving DecidableEq

abbrev File := List Stored

def tableOf (name : Bytes) (file : File) : Option Stored := file.find? (·.table.name = name)

def rowsOf (name : Bytes) (file : File) : List Row := ((tableOf name file).map (·.rows)).getD []

-- ---------------------------------------------------------------------------
-- Statements
-- ---------------------------------------------------------------------------

def createTable (table : Table) (file : File) : File :=
  if (tableOf table.name file).isSome then file else file ++ [⟨table, [], .nil⟩]

def Stored.insert (row : Row) (stored : Stored) : Option Stored :=
  if h : row.length = stored.table.columns.length ∧
      KeyedList.Fresh (rowKey stored.table) stored.rows row then
    some ⟨stored.table, stored.rows ++ [row], stored.distinct.concat h.2⟩
  else none

/-- `none` where there is no such table, or the row is refused. -/
def insertInto (name : Bytes) (row : Row) : File → Option File
  | [] => none
  | stored :: file =>
    if stored.table.name = name then (stored.insert row).map (· :: file)
    else (insertInto name row file).map (stored :: ·)

/-- `db_exec` of an `INSERT`; its callers do not look at the result. -/
def dbInsert (name : Bytes) (row : Row) (file : File) : File := (insertInto name row file).getD file

theorem tableOf_cons (stored : Stored) (file : File) :
    tableOf name (stored :: file) =
      if stored.table.name = name then some stored else tableOf name file := by
  simp only [tableOf, List.find?_cons]
  split <;> simp_all

theorem createTable_of_tableOf {table : Table} (h : (tableOf table.name file).isSome) :
    createTable table file = file :=
  if_pos h

theorem createTables_of_tableOf {tables : List Table}
    (h : ∀ table ∈ tables, (tableOf table.name file).isSome) :
    tables.foldl (fun file table => createTable table file) file = file := by
  induction tables with
  | nil => rfl
  | cons table tables ih =>
    obtain ⟨htable, htables⟩ := List.forall_mem_cons.mp h
    rw [List.foldl_cons, createTable_of_tableOf htable]
    exact ih htables

theorem Stored.insert_eq_some (h : Stored.insert row stored = some stored') :
    stored'.table = stored.table ∧ stored'.rows = stored.rows ++ [row] := by
  unfold Stored.insert at h
  split at h <;> cases h
  exact ⟨rfl, rfl⟩

/-- The table of the `INSERT` takes the row, and no other table sees it. -/
theorem tableOf_insertInto (h : insertInto name row file = some file') :
    ∃ stored stored', tableOf name file = some stored ∧ Stored.insert row stored = some stored' ∧
      ∀ other,
        tableOf other file' = if other = name then some stored' else tableOf other file := by
  induction file generalizing file' with
  | nil => cases h
  | cons stored file ih =>
    rw [insertInto] at h
    split at h
    · rename_i hname
      obtain ⟨stored', hinsert, rfl⟩ := Option.map_eq_some_iff.mp h
      refine ⟨stored, stored', by rw [tableOf_cons, if_pos hname], hinsert, fun other => ?_⟩
      have htable := (Stored.insert_eq_some hinsert).1
      simp only [tableOf_cons, htable, hname, eq_comm (a := other)]
      split <;> rfl
    · rename_i hname
      obtain ⟨rest, hrest, rfl⟩ := Option.map_eq_some_iff.mp h
      obtain ⟨found, found', hfound, hinsert, hother⟩ := ih hrest
      refine ⟨found, found', by rw [tableOf_cons, if_neg hname, hfound], hinsert, fun other => ?_⟩
      simp only [tableOf_cons, hother]
      split
      · rename_i hstored
        rw [if_neg (hstored ▸ hname)]
      · rfl

theorem table_insertInto (h : insertInto name row file = some file') (other : Bytes) :
    (tableOf other file').map (·.table) = (tableOf other file).map (·.table) := by
  obtain ⟨stored, stored', hstored, hinsert, hother⟩ := tableOf_insertInto h
  rw [hother]
  split
  · rename_i hname
    rw [hname, hstored, Option.map_some, Option.map_some, (Stored.insert_eq_some hinsert).1]
  · rfl

theorem rowsOf_insertInto (h : insertInto name row file = some file') (other : Bytes) :
    rowsOf other file' = rowsOf other file ++ if name = other then [row] else [] := by
  obtain ⟨stored, stored', hstored, hinsert, hother⟩ := tableOf_insertInto h
  rw [rowsOf, hother]
  split
  · rename_i hname
    subst hname
    simp [rowsOf, hstored, (Stored.insert_eq_some hinsert).2]
  · rename_i hname
    simp [rowsOf, Ne.symm hname]

-- ---------------------------------------------------------------------------
-- Default values
-- ---------------------------------------------------------------------------

def Service.row (service : Service) : Row :=
  [.text service.name, .text service.url, .number (dec (if service.isLocal then 1 else 0))]

def geonsConfigStatus : Bytes := bytes "geons_config_status"

def statusRow : Row := [.text geonsConfigStatus, .text (bytes "true")]

def hasStatusKey (row : Row) : Bool := row[0]? = some (.text geonsConfigStatus)

/-- The rows of the `SELECT` for the configuration's status, `none` where it does
not compile. -/
def selectStatus (file : File) : Option (List Row) :=
  (tableOf settings.name file).map fun stored => stored.rows.filter hasStatusKey

def settingValue (row : Row) : Option Bytes := row[1]?.bind Value.columnText

/-- The text is looked at after `sqlite3_finalize`, when `stale` is what it
compares to. Without a result the process is at fault: it reads a `Database`
that was freed, or no text. -/
def isGeonsConfigured (isLedger stale : Bool) (file : File) : Option Bool :=
  if isLedger then some true
  else
    match selectStatus file with
    | none => none
    | some [] => some false
    | some (row :: _) => (settingValue row).map fun _ => stale

def setGeonsSettingsConfigStatus (isLedger : Bool) (file : File) : Option File :=
  if isLedger then some file
  else do
    let isConfigured ←
      match selectStatus file with
      | none => none
      | some [] => some false
      | some (row :: _) => (settingValue row).map fun value => (bytes "true").isPrefixOf value
    return if isConfigured then file else dbInsert settings.name statusRow file

def insertDefaultValues (isLedger : Bool) (file : File) : Option File :=
  let file :=
    if isLedger then
      geonsDefaultServices.foldl
        (fun file service => dbInsert services.name (Service.row service) file) file
    else file
  if !isLedger then setGeonsSettingsConfigStatus isLedger file else some file

def createDefaultTables (isLedger stale : Bool) (file : File) : Option File := do
  let file := (defaultTables isLedger).foldl (fun file table => createTable table file) file
  if !(← isGeonsConfigured isLedger stale file) then insertDefaultValues isLedger file else some file

def dbInit (isLedger stale : Bool) (file : File) : Option File :=
  createDefaultTables isLedger stale file

def dbConnect (isLedger stale : Bool) (file : File) : Option File := dbInit isLedger stale file

-- ---------------------------------------------------------------------------
-- One round
-- ---------------------------------------------------------------------------

structure Ready (isLedger : Bool) (file : File) : Prop where
  tables : ∀ table ∈ defaultTables isLedger, (tableOf table.name file).map (·.table) = some table
  status : isLedger = false → statusRow ∈ rowsOf settings.name file

theorem exists_tableOf (h : (tableOf name file).map (·.table) = some table) :
    ∃ stored, tableOf name file = some stored ∧ stored.table = table ∧
      rowsOf name file = stored.rows := by
  obtain ⟨stored, hstored, rfl⟩ := Option.map_eq_some_iff.mp h
  exact ⟨stored, hstored, rfl, by simp [rowsOf, hstored]⟩

theorem Ready.distinct (hr : Ready isLedger file) (ht : table ∈ defaultTables isLedger) :
    KeyedList.Distinct (rowKey table) (rowsOf table.name file) := by
  obtain ⟨stored, -, htable, hrows⟩ := exists_tableOf (hr.tables table ht)
  rw [hrows, ← htable]
  exact stored.distinct

theorem hasStatusKey_iff :
    hasStatusKey row ↔ rowKey settings row = some (.text geonsConfigStatus) := by
  simp [hasStatusKey, rowKey, settings, Option.filter_eq_some_iff]

/-- Rows of `settings` with the configuration's key are refused for the one
that is there. -/
theorem Ready.filter_hasStatusKey (hr : Ready false file) :
    (rowsOf settings.name file).filter hasStatusKey = [statusRow] := by
  have hkey : hasStatusKey =
      fun row => decide (rowKey settings row = some (.text geonsConfigStatus)) := by
    funext row
    rw [Bool.eq_iff_iff, hasStatusKey_iff, decide_eq_true_iff]
  rw [hkey]
  exact (hr.distinct (List.mem_cons_self ..)).filter_key (hr.status rfl) (by decide)

theorem Ready.selectStatus (hr : Ready false file) : selectStatus file = some [statusRow] := by
  obtain ⟨stored, hstored, -, hrows⟩ := exists_tableOf (hr.tables settings (List.mem_cons_self ..))
  rw [Rounds.selectStatus, hstored, Option.map_some, ← hrows, hr.filter_hasStatusKey]

/-- Whatever the text compares to after it is gone, the second look at it finds
the status. -/
theorem Ready.dbConnect (hr : Ready isLedger file) (stale : Bool) :
    dbConnect isLedger stale file = some file := by
  have htables :
      (defaultTables isLedger).foldl (fun file table => createTable table file) file = file := by
    refine createTables_of_tableOf fun table ht => ?_
    obtain ⟨stored, hstored, -⟩ := exists_tableOf (hr.tables table ht)
    rw [hstored]
    rfl
  have hvalue : settingValue statusRow = some (bytes "true") := rfl
  have hprefix : (bytes "true").isPrefixOf (bytes "true") = true := by decide
  rw [Rounds.dbConnect, dbInit, createDefaultTables, htables]
  cases isLedger with
  | true => rfl
  | false =>
    cases stale with
    | true => simp [isGeonsConfigured, hr.selectStatus, hvalue]
    | false =>
      simp [isGeonsConfigured, insertDefaultValues, setGeonsSettingsConfigStatus, hr.selectStatus,
        hvalue, hprefix]

theorem Ready.insertInto (hr : Ready isLedger file) (h : insertInto name row file = some file') :
    Ready isLedger file' where
  tables table ht := by rw [table_insertInto h, hr.tables table ht]
  status hl := by
    rw [rowsOf_insertInto h]
    exact List.mem_append_left _ (hr.status hl)

/-- The first round, on an empty file. It makes the tables, and no rows but the
status of the local database. -/
theorem dbConnect_nil (isLedger stale : Bool) :
    ∃ file, dbConnect isLedger stale [] = some file ∧ Ready isLedger file ∧
      rowsOf services.name file = [] := by
  cases isLedger with
  | true => exact ⟨[⟨logs, [], .nil⟩, ⟨services, [], .nil⟩], rfl, ⟨by decide, nofun⟩, by decide⟩
  | false =>
    refine ⟨[⟨settings, [statusRow], List.pairwise_singleton _ _⟩, ⟨nodesTable, [], .nil⟩], ?_,
      ⟨by decide, fun _ => by decide⟩, by decide⟩
    cases stale <;> decide +kernel

-- ---------------------------------------------------------------------------
-- Rounds
-- ---------------------------------------------------------------------------

inductive Op
  | round (stale : Bool)
  | add (table : Bytes) (row : Row)
  deriving DecidableEq

def step (isLedger : Bool) (file : File) : Op → Option File
  | .round stale => dbConnect isLedger stale file
  | .add table row => insertInto table row file

def rounds (as : List Op) : Nat := as.countP fun | .round _ => true | .add _ _ => false

/-- What the rounds are to have brought about, and no other round changes. -/
structure Initialised (isLedger : Bool) (file : File) : Prop where
  tables : ∀ table ∈ defaultTables isLedger, (tableOf table.name file).map (·.table) = some table
  services : isLedger = true → ∀ service ∈ geonsDefaultServices,
    (rowsOf services.name file).count (Service.row service) = 1
  status : isLedger = false → (rowsOf settings.name file).filter hasStatusKey = [statusRow]
  unchanged : ∀ stale, dbConnect isLedger stale file = some file

def added (name : Bytes) (as : List Op) : List Row :=
  as.filterMap fun | .add table row => if table = name then some row else none | .round _ => none

theorem mem_added : row ∈ added name as ↔ Op.add name row ∈ as := by
  simp only [added, List.mem_filterMap]
  constructor
  · rintro ⟨op, hop, hrow⟩
    cases op with
    | round stale => cases hrow
    | add table row =>
      obtain ⟨rfl, h⟩ := Option.ite_none_right_eq_some.mp hrow
      exact Option.some.inj h ▸ hop
  · intro h
    exact ⟨_, h, if_pos rfl⟩

theorem Ready.run (hr : Ready isLedger s) (hrun : Runs.run (step isLedger) s as = some t) :
    Ready isLedger t ∧ ∀ name, rowsOf name t = rowsOf name s ++ added name as := by
  induction as generalizing s with
  | nil =>
    cases hrun
    exact ⟨hr, fun name => (List.append_nil _).symm⟩
  | cons op as ih =>
    obtain ⟨s', hs, hrest⟩ := Runs.run_cons.mp hrun
    cases op with
    | round stale =>
      cases (hr.dbConnect stale).symm.trans hs
      exact ih hr hrest
    | add table row =>
      obtain ⟨ht, hrows⟩ := ih (hr.insertInto hs) hrest
      refine ⟨ht, fun name => ?_⟩
      rw [hrows, rowsOf_insertInto hs, List.append_assoc]
      congr 1
      by_cases hname : table = name <;> simp [added, hname]

theorem ready_run (hrun : Runs.run (step isLedger) [] as = some t) (hrounds : 0 < rounds as) :
    Ready isLedger t ∧ rowsOf services.name t = added services.name as := by
  cases as with
  | nil => cases hrounds
  | cons op as =>
    obtain ⟨s, hs, hrest⟩ := Runs.run_cons.mp hrun
    cases op with
    | add table row => cases hs
    | round stale =>
      obtain ⟨first, hfirst, hr, hnone⟩ := dbConnect_nil isLedger stale
      cases hfirst.symm.trans hs
      obtain ⟨ht, hrows⟩ := hr.run hrest
      refine ⟨ht, ?_⟩
      rw [hrows, hnone, List.nil_append]
      rfl

/-- The services of the ledger are those that other operations add. -/
theorem initialised_iff (hrun : Runs.run (step isLedger) [] as = some t) (hrounds : 0 < rounds as) :
    Initialised isLedger t ↔
      isLedger = false ∨
        ∀ service ∈ geonsDefaultServices, Op.add services.name (Service.row service) ∈ as := by
  obtain ⟨hr, hrows⟩ := ready_run hrun hrounds
  constructor
  · intro h
    cases isLedger with
    | false => exact .inl rfl
    | true =>
      refine .inr fun service hservice => ?_
      have hcount := h.services rfl service hservice
      rw [← mem_added, ← hrows]
      exact List.count_pos_iff.mp (hcount ▸ Nat.one_pos)
  · intro h
    refine ⟨hr.tables, fun hl service hservice => ?_, fun hl => ?_, hr.dbConnect⟩
    · have hadd := h.resolve_left (by simp [hl]) service hservice
      rw [← mem_added, ← hrows] at hadd
      have hkey : rowKey services (Service.row service) = some (.text service.name) := rfl
      subst hl
      exact (hr.distinct (List.mem_cons_of_mem _ (List.mem_cons_self ..))).count_eq_one hadd hkey
    · subst hl
      exact hr.filter_hasStatusKey

theorem initialised_localDb :
    ∃ as t, Runs.run (step false) [] as = some t ∧ Initialised false t := by
  have h : (Runs.run (step false) [] [.round true, .add nodesTable.name [.text (bytes "10.0.0.1"),
      .number (bytes "8080"), .text (bytes "active")], .round false]).isSome := by decide +kernel
  obtain ⟨t, ht⟩ := Option.isSome_iff_exists.mp h
  exact ⟨_, t, ht, (initialised_iff ht (by decide)).mpr (.inl rfl)⟩

theorem not_initialised_firstRound : ∃ t,
    Runs.run (step true) [] [.round false] = some t ∧ ¬Initialised true t := by
  refine ⟨[⟨logs, [], .nil⟩, ⟨services, [], .nil⟩], rfl, fun h => ?_⟩
  have hcount := h.services rfl ⟨bytes "Github", bytes "https://github.com/", false⟩ (by decide)
  exact absurd hcount (by decide)

end GeoNS.Db.Rounds
