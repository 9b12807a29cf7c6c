import GeoNS.Io.BaseDir

/-!
# Paths below the base directory

Four callers copy `cwd` into an array and append a name to it. None asks whether the
name fits behind `cwd`: `strncat` is bounded by the array, by the name itself, or by
the space that is left.
-/

namespace GeoNS.Io

open CString

/-- The array still holds what it held before where `strncpy` does not reach. -/
def getCwdPath (cwd filePath : Bytes) (sizeOfFilePath : Nat) : Option Bytes :=
  (strlen cwd).bind fun length =>
    if length < filePath.length then
      some ((strncpy (sizeOfFilePath - 1) (cstr cwd) ++ filePath.drop (sizeOfFilePath - 1)).set length 0)
    else none

inductive Composed
  /-- A write outside of an array. -/
  | outside
  | refused
  | path (filePath : Bytes)

def Composed.ofOption : Option Bytes → Composed
  | none => .outside
  | some filePath => .path filePath

def dbConnect (cwd dbPath dbName : Bytes) : Composed :=
  .ofOption ((getCwdPath cwd dbPath maxSysPathLength).bind fun dbPath =>
    strncat dbPath dbName (maxSysPathLength - 1))

def configFileName : Bytes := bytes "config.json"

def initConfigManager (cwd configFilePath : Bytes) : Composed :=
  .ofOption ((getCwdPath cwd configFilePath maxSysPathLength).bind fun configFilePath =>
    strncat configFilePath configFileName (maxSysPathLength - 1))

inductive LogType
  | debug
  | info
  | warning
  | error
  | fatal
  deriving DecidableEq

structure Logger where
  isIoInitialized : Bool
  isDebugging : Bool
  logFileName : CStr
  isDirectoryExists : Bool
  mkdir : Bool

def Logger.Writes (logger : Logger) (type : LogType) : Prop :=
  logger.isIoInitialized ∧ (type = .debug → logger.isDebugging)

instance (logger : Logger) (type : LogType) : Decidable (logger.Writes type) :=
  inferInstanceAs (Decidable (_ ∧ _))

def msglog (cwd logFilePath : Bytes) (logger : Logger) (type : LogType) : Composed :=
  if logger.Writes type then
    match (getCwdPath cwd logFilePath maxSysPathLength).bind fun logFilePath =>
      strncat logFilePath (bytes "logs/") (maxSysPathLength - 1) with
    | none => .outside
    | some logFilePath =>
      if logger.isDirectoryExists || logger.mkdir then
        .ofOption ((strlen logFilePath).bind fun length =>
          strncat logFilePath logger.logFileName.1 (maxSysPathLength - length - 1))
      else .refused
  else .refused

def createHttpServer (cwd : Bytes) (publicDir : Option CStr) (isDirectoryExists : Bool) : Composed :=
  match publicDir with
  | none => .refused
  | some publicDir =>
    if publicDir.1 = [] then .refused
    else
      let publicDirPath := List.replicate maxSysPathLength 0
      let publicDirPath :=
        if isAbsolutePath publicDir.1 then some publicDirPath
        else getCwdPath cwd publicDirPath maxSysPathLength
      match publicDirPath.bind fun publicDirPath => strncat publicDirPath publicDir.1 publicDir.1.length with
      | none => .outside
      | some publicDirPath => if isDirectoryExists then .path publicDirPath else .refused

-- ---------------------------------------------------------------------------
-- The callers
-- ---------------------------------------------------------------------------

inductive Caller
  | dbConnect (dbName : CStr)
  | initConfigManager
  | msglog (logger : Logger) (type : LogType)
  | createHttpServer (publicDir : Option CStr) (isDirectoryExists : Bool)

/-- `filePath` is the array of the caller before the call. -/
def Caller.compose (cwd filePath : Bytes) : Caller → Composed
  | .dbConnect dbName => Io.dbConnect cwd filePath dbName.1
  | .initConfigManager => Io.initConfigManager cwd filePath
  | .msglog logger type => Io.msglog cwd filePath logger type
  | .createHttpServer publicDir isDirectoryExists => Io.createHttpServer cwd publicDir isDirectoryExists

def Caller.meant (dir : Bytes) : Caller → Bytes
  | .dbConnect dbName => dir ++ dbName.1
  | .initConfigManager => dir ++ bytes "config.json"
  | .msglog logger _ => dir ++ bytes "logs/" ++ logger.logFileName.1
  | .createHttpServer none _ => []
  | .createHttpServer (some publicDir) _ =>
    if isAbsolutePath publicDir.1 then publicDir.1 else dir ++ publicDir.1

/-- The path and its terminator are in the array, or there is none. -/
def Composed.IsWhole (meant : Bytes) : Composed → Prop
  | .outside => False
  | .refused => True
  | .path filePath => filePath.length = maxSysPathLength ∧ Holds filePath meant

def Caller.Fits (dir : Bytes) : Caller → Prop
  | .dbConnect dbName => dir.length + dbName.1.length < maxSysPathLength
  | .initConfigManager => dir.length + 11 < maxSysPathLength
  | .msglog logger type => logger.Writes type →
      dir.length + 5 < maxSysPathLength ∧
        ((logger.isDirectoryExists ∨ logger.mkdir) →
          dir.length + 5 + logger.logFileName.1.length < maxSysPathLength)
  | .createHttpServer none _ => True
  | .createHttpServer (some publicDir) _ =>
    publicDir.1 = [] ∨
      (if isAbsolutePath publicDir.1 then 0 else dir.length) + publicDir.1.length < maxSysPathLength

-- ---------------------------------------------------------------------------
-- Copying and appending
-- ---------------------------------------------------------------------------

theorem getCwdPath_holds (hcwd : Holds cwd dir) (hdir : dir.length < maxSysPathLength)
    (hfilePath : filePath.length = maxSysPathLength) :
    ∃ copied, getCwdPath cwd filePath maxSysPathLength = some copied ∧ copied.length = maxSysPathLength ∧
      Holds copied dir := by
  have hle : dir.length ≤ maxSysPathLength - 1 := by omega
  have hmax : maxSysPathLength = 1024 := rfl
  have hlast : filePath.drop (maxSysPathLength - 1) ≠ [] := by
    intro hnil
    have hlength := congrArg List.length hnil
    rw [List.length_drop, hfilePath] at hlength
    contradiction
  obtain ⟨c, t, hrest⟩ := List.exists_cons_of_ne_nil
    (List.append_ne_nil_of_right_ne_nil (List.replicate (maxSysPathLength - 1 - dir.length) 0) hlast)
  refine ⟨_, by rw [getCwdPath, hcwd.strlen_eq, Option.bind_some, hfilePath, if_pos hdir], ?_, hcwd.1, t, ?_⟩
  · rw [List.length_set, List.length_append, length_strncpy, List.length_drop, hfilePath]
    omega
  · rw [hcwd.cstr_eq, strncpy_of_le hle, List.append_assoc, hrest, List.set_append_right _ _ (Nat.le_refl _),
      Nat.sub_self, List.set_cons_zero]

theorem isWhole_strncat_iff (hcopied : Holds copied dir) (hlength : copied.length = maxSysPathLength)
    (hname : (0 : UInt8) ∉ name) (hn : maxSysPathLength ≤ dir.length + n + 1 ∨ name.length ≤ n) :
    (Composed.ofOption (strncat copied name n)).IsWhole (dir ++ name) ↔
      dir.length + name.length < maxSysPathLength := by
  by_cases hlt : dir.length + (name.take n).length < copied.length
  case neg =>
    rw [hcopied.strncat_eq_none (Nat.le_of_not_lt hlt)]
    refine iff_of_false id fun hfits => hlt ?_
    rw [List.length_take, hlength]
    omega
  obtain ⟨filePath, hcat, hholds, hfilePath⟩ := hcopied.strncat_of_lt hname hlt
  rw [hcat]
  rw [List.length_take, hlength] at hlt
  constructor
  · rintro ⟨-, hwhole⟩
    have htake : name.take n = name := List.append_cancel_left (hholds.unique hwhole)
    rw [List.take_eq_self_iff] at htake
    omega
  · intro hfits
    rw [List.take_of_length_le (by omega)] at hholds
    exact ⟨hfilePath.trans hlength, hholds⟩

theorem isWhole_dbConnect_iff (hcwd : Holds cwd dir) (hdir : dir.length < maxSysPathLength)
    (hdbPath : dbPath.length = maxSysPathLength) (hdbName : (0 : UInt8) ∉ dbName) :
    (dbConnect cwd dbPath dbName).IsWhole (dir ++ dbName) ↔ dir.length + dbName.length < maxSysPathLength := by
  obtain ⟨copied, hcopy, hlength, hcopied⟩ := getCwdPath_holds hcwd hdir hdbPath
  rw [dbConnect, hcopy, Option.bind_some]
  exact isWhole_strncat_iff hcopied hlength hdbName (.inl (by omega))

theorem isWhole_initConfigManager_iff (hcwd : Holds cwd dir) (hdir : dir.length < maxSysPathLength)
    (hconfigFilePath : configFilePath.length = maxSysPathLength) :
    (initConfigManager cwd configFilePath).IsWhole (dir ++ configFileName) ↔
      dir.length + 11 < maxSysPathLength :=
  isWhole_dbConnect_iff hcwd hdir hconfigFilePath (by decide)

theorem isWhole_msglog_iff (hcwd : Holds cwd dir) (hdir : dir.length < maxSysPathLength)
    (hlogFilePath : logFilePath.length = maxSysPathLength) (logger : Logger) (type : LogType) :
    (msglog cwd logFilePath logger type).IsWhole (dir ++ bytes "logs/" ++ logger.logFileName.1) ↔
      (Caller.msglog logger type).Fits dir := by
  unfold msglog
  split
  case isFalse hskips => exact iff_of_true trivial fun hwrites => absurd hwrites hskips
  case isTrue hwrites =>
    obtain ⟨copied, hcopy, hlength, hcopied⟩ := getCwdPath_holds hcwd hdir hlogFilePath
    have hfive : (bytes "logs/").length = 5 := rfl
    have hlogs : (0 : UInt8) ∉ bytes "logs/" := by decide
    rw [hcopy, Option.bind_some]
    obtain ⟨hfits, logDir, hcat, hlogDir, hlogDirLength⟩ | ⟨hlong, hnone⟩ :=
      hcopied.strncat_cases (n := maxSysPathLength - 1) hlogs (.inr (by decide))
    case inr =>
      rw [hnone]
      refine iff_of_false id fun h => ?_
      have hfits := (h hwrites).1
      omega
    rw [hlength, hfive] at hfits
    rw [hcat]
    show (if logger.isDirectoryExists || logger.mkdir then _ else Composed.refused).IsWhole _ ↔ _
    split
    case isFalse hno =>
      refine iff_of_true trivial fun _ => ⟨hfits, fun hdirectory => absurd ?_ hno⟩
      rwa [Bool.or_eq_true]
    case isTrue hdirectory =>
      rw [Bool.or_eq_true] at hdirectory
      have hlength' : (dir ++ bytes "logs/").length = dir.length + 5 := by rw [List.length_append, hfive]
      rw [hlogDir.strlen_eq, Option.bind_some, isWhole_strncat_iff hlogDir (hlogDirLength.trans hlength)
        logger.logFileName.2 (.inl (by omega)), hlength']
      exact ⟨fun h _ => ⟨hfits, fun _ => h⟩, fun h => (h hwrites).2 hdirectory⟩

theorem isWhole_createHttpServer_iff (hcwd : Holds cwd dir) (hdir : dir.length < maxSysPathLength)
    (publicDir : CStr) (isDirectoryExists : Bool) :
    (createHttpServer cwd (some publicDir) isDirectoryExists).IsWhole
        (if isAbsolutePath publicDir.1 then publicDir.1 else dir ++ publicDir.1) ↔
      (Caller.createHttpServer (some publicDir) isDirectoryExists).Fits dir := by
  unfold createHttpServer Caller.Fits
  by_cases hnil : publicDir.1 = []
  · simp only [hnil, if_true]
    exact iff_of_true trivial (.inl trivial)
  have hstart : ∃ copied, (if isAbsolutePath publicDir.1 then some (List.replicate maxSysPathLength 0)
        else getCwdPath cwd (List.replicate maxSysPathLength 0) maxSysPathLength) = some copied ∧
      copied.length = maxSysPathLength ∧ Holds copied (if isAbsolutePath publicDir.1 then [] else dir) := by
    split
    case isTrue =>
      exact ⟨_, rfl, List.length_replicate, holds_append_zeros List.not_mem_nil (n := maxSysPathLength) (by decide)⟩
    case isFalse => exact getCwdPath_holds hcwd hdir List.length_replicate
  obtain ⟨copied, hcopy, hlength, hcopied⟩ := hstart
  have hmeant : (if isAbsolutePath publicDir.1 then publicDir.1 else dir ++ publicDir.1) =
      (if isAbsolutePath publicDir.1 then [] else dir) ++ publicDir.1 := by split <;> rfl
  have hbase : (if isAbsolutePath publicDir.1 then 0 else dir.length) =
      (if isAbsolutePath publicDir.1 then [] else dir).length := by split <;> rfl
  simp only [if_neg hnil, or_iff_right hnil, hcopy, Option.bind_some, hmeant, hbase]
  rw [← hlength]
  obtain ⟨hfits, filePath, hcat, hholds, hfilePath⟩ | ⟨hlong, hnone⟩ :=
    hcopied.strncat_cases publicDir.2 (.inr (Nat.le_refl _))
  · refine iff_of_true ?_ hfits
    rw [hcat]
    cases isDirectoryExists with
    | false => trivial
    | true => exact ⟨hfilePath.trans hlength, hholds⟩
  · refine iff_of_false ?_ (Nat.not_lt_of_le hlong)
    rw [hnone]
    exact id

theorem isWhole_compose_iff (hcwd : Holds cwd dir) (hdir : dir.length < maxSysPathLength)
    (hfilePath : filePath.length = maxSysPathLength) (caller : Caller) :
    (caller.compose cwd filePath).IsWhole (caller.meant dir) ↔ caller.Fits dir := by
  cases caller with
  | dbConnect dbName => exact isWhole_dbConnect_iff hcwd hdir hfilePath dbName.2
  | initConfigManager => exact isWhole_initConfigManager_iff hcwd hdir hfilePath
  | msglog logger type => exact isWhole_msglog_iff hcwd hdir hfilePath logger type
  | createHttpServer publicDir isDirectoryExists =>
    cases publicDir with
    | none => exact iff_of_true trivial trivial
    | some publicDir => exact isWhole_createHttpServer_iff hcwd hdir publicDir isDirectoryExists

theorem holds_srv : Holds (strncpy maxSysPathLength (bytes "/srv/")) (bytes "/srv/") :=
  holds_strncpy (by decide) (by decide)

theorem isWhole_compose_srv :
    (Caller.initConfigManager.compose (strncpy maxSysPathLength (bytes "/srv/"))
      (List.replicate maxSysPathLength 0)).IsWhole (Caller.initConfigManager.meant (bytes "/srv/")) := by
  rw [isWhole_compose_iff holds_srv (by decide) List.length_replicate]
  show (bytes "/srv/").length + 11 < maxSysPathLength
  decide

def dirOfLength (n : Nat) : Bytes := 47 :: (List.replicate n 97 ++ [47])

theorem length_dirOfLength (n : Nat) : (dirOfLength n).length = n + 2 := by simp [dirOfLength]

theorem dirOf_dirOfLength (n : Nat) : dirOf (dirOfLength n ++ [103]) = dirOfLength n := by
  rw [dirOf_concat, if_neg (by decide), dirOfLength, ← List.cons_append, dirOf_concat, if_pos rfl]

def longHost (n : Nat) : Host where
  proc := true
  exe := some ⟨⟨dirOfLength n ++ [103], by simp [dirOfLength]⟩, rfl⟩
  currentDir := none

theorem longHost_initIoSystem (h : n + 3 < maxSysPathLength) (execPath : Bytes) :
    ∃ cwd, initIoSystem (longHost n) execPath = some cwd ∧ Holds cwd (dirOfLength n) := by
  have hfill : fillCwd (longHost n) execPath = some (strncpy maxSysPathLength (dirOfLength n ++ [103])) := by
    rw [← memcpy_zeros_take]
    rfl
  have hlength : (dirOfLength n ++ [103]).length < maxSysPathLength := by
    rwa [List.length_append, length_dirOfLength]
  obtain ⟨cwd, hcut, hholds⟩ := cut_holds (holds_strncpy (by simp [dirOfLength]) hlength) (length_strncpy _ _)
    (by simp [dirOfLength])
  exact ⟨cwd, (initIoSystem_eq hfill).trans hcut, dirOf_dirOfLength n ▸ hholds⟩

/-- There is no room for `ledger.db` behind 1020 bytes. -/
theorem longHost_not_isWhole :
    ∃ cwd, initIoSystem (longHost 1018) (bytes "/g") = some cwd ∧ Holds cwd (dirOfLength 1018) ∧
      ¬ (dbConnect cwd (List.replicate maxSysPathLength 0) (bytes "ledger.db")).IsWhole
        (dirOfLength 1018 ++ bytes "ledger.db") := by
  obtain ⟨cwd, hinit, hholds⟩ := longHost_initIoSystem (n := 1018) (by decide) (bytes "/g")
  refine ⟨cwd, hinit, hholds, ?_⟩
  rw [isWhole_dbConnect_iff hholds (by rw [length_dirOfLength]; decide) List.length_replicate (by decide),
    length_dirOfLength]
  decide

end GeoNS.Io
