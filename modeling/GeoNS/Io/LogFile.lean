import GeoNS.Runs
import GeoNS.Io.Paths

/-!
# The log file

`init_logger` names a file, and every call of `msglog` that is not refused appends a
record to it. The records are read back from the file, unless a message has a newline
within it.
-/

namespace GeoNS.Io

open CString Runs

-- ---------------------------------------------------------------------------
-- Times
-- ---------------------------------------------------------------------------

structure Tm where
  year : Fin 10000
  month : Fin 100
  day : Fin 100
  hour : Fin 100
  minute : Fin 100
  second : Fin 100
  deriving DecidableEq, Repr

def digit (n : Nat) : UInt8 := UInt8.ofNat (48 + n % 10)

def two (n : Fin 100) : Bytes := [digit (n / 10), digit n]

def four (n : Fin 10000) : Bytes := [digit (n / 1000), digit (n / 100), digit (n / 10), digit n]

/-- `%Y/%m/%d - %H:%M:%S` -/
def Tm.text (tm : Tm) : Bytes :=
  four tm.year ++ bytes "/" ++ two tm.month ++ bytes "/" ++ two tm.day ++ bytes " - " ++
    two tm.hour ++ bytes ":" ++ two tm.minute ++ bytes ":" ++ two tm.second

/-- `%Y-%m-%d_%H-%M-%S.log` -/
def Tm.fileName (tm : Tm) : Bytes :=
  four tm.year ++ bytes "-" ++ two tm.month ++ bytes "-" ++ two tm.day ++ bytes "_" ++
    two tm.hour ++ bytes "-" ++ two tm.minute ++ bytes "-" ++ two tm.second ++ bytes ".log"

def maxLogLength : Nat := 1024
def maxLogFileNameLength : Nat := 32
def maxLogPreTextLength : Nat := 32
def maxLogTimeLength : Nat := 22

/-- What is in the array is indeterminate where the text and its terminator do not fit. -/
def strftime (size : Nat) (text : Bytes) : Option Bytes := if text.length < size then some text else none

theorem length_text (tm : Tm) : tm.text.length = 21 := rfl

theorem length_fileName (tm : Tm) : tm.fileName.length = 23 := rfl

theorem toNat_digit (n : Nat) : (digit n).toNat = 48 + n % 10 := by
  rw [digit, UInt8.toNat_ofNat']
  omega

theorem digit_ne (n : Nat) (c : UInt8) (hc : c.toNat < 48) : digit n ≠ c := fun h => by
  have := toNat_digit n
  rw [h] at this
  omega

theorem decVal_two (n : Fin 100) : decVal (two n) = n := by
  simp only [decVal, two, List.foldl_cons, List.foldl_nil, toNat_digit]
  omega

theorem decVal_four (n : Fin 10000) : decVal (four n) = n := by
  simp only [decVal, four, List.foldl_cons, List.foldl_nil, toNat_digit]
  omega

-- ---------------------------------------------------------------------------
-- Records
-- ---------------------------------------------------------------------------

def logChar : LogType → UInt8
  | .debug => 68
  | .info => 73
  | .warning => 87
  | .error => 69
  | .fatal => 70

/-- One newline at the end is not printed. -/
def shown (buffer : Bytes) : Bytes := if buffer.getLast? = some 10 then buffer.dropLast else buffer

def logData (type : LogType) (time : Tm) (text : Bytes) : Option Bytes :=
  let buffer := snprintf maxLogLength text
  let logSize := maxLogPreTextLength + buffer.length + 50
  (strftime maxLogTimeLength time.text).map fun currentTime =>
    snprintf logSize ([logChar type] ++ bytes "\t[" ++ currentTime ++ bytes "]\t" ++ shown buffer ++ bytes "\n")

structure LogRecord where
  type : LogType
  time : Tm
  message : Bytes
  deriving DecidableEq

def LogRecord.line (r : LogRecord) : Bytes :=
  [logChar r.type] ++ bytes "\t[" ++ r.time.text ++ bytes "]\t" ++ r.message

def logRecord (type : LogType) (time : Tm) (text : Bytes) : LogRecord :=
  ⟨type, time, shown (text.take (maxLogLength - 1))⟩

theorem length_shown_le (buffer : Bytes) : (shown buffer).length ≤ buffer.length := by
  unfold shown
  split
  · simp
  · exact Nat.le_refl _

theorem logData_eq (type : LogType) (time : Tm) (text : Bytes) :
    logData type time text = some ((logRecord type time text).line ++ [10]) := by
  have htime : strftime maxLogTimeLength time.text = some time.text := if_pos (by rw [length_text]; decide)
  have hshown := length_shown_le (snprintf maxLogLength text)
  simp only [logData, htime, Option.map_some]
  rw [(snprintf_eq_self_iff (by unfold maxLogPreTextLength; omega)).mpr]
  · rfl
  · simp only [List.length_append, length_text]
    change 1 + 2 + 21 + 2 + (shown (snprintf maxLogLength text)).length + 1 < _
    unfold maxLogPreTextLength
    omega

-- ---------------------------------------------------------------------------
-- Reading
-- ---------------------------------------------------------------------------

def readType (c : UInt8) : Option LogType :=
  [LogType.debug, .info, .warning, .error, .fatal].find? (logChar · == c)

def readNumber (k : Nat) [NeZero k] (s : Bytes) (i n : Nat) : Fin k := Fin.ofNat k (decVal ((s.drop i).take n))

def readTime (s : Bytes) : Tm :=
  ⟨readNumber 10000 s 0 4, readNumber 100 s 5 2, readNumber 100 s 8 2, readNumber 100 s 13 2,
    readNumber 100 s 16 2, readNumber 100 s 19 2⟩

def readLine (line : Bytes) : Option LogRecord :=
  (line.head?.bind readType).bind fun type =>
    let r : LogRecord := ⟨type, readTime (line.drop 3), line.drop 26⟩
    if r.line = line then some r else none

/-- Every line of the file is a record, and the last one is ended, too. -/
def readLog (file : Bytes) : Option (List LogRecord) :=
  let lines := file.splitOn 10
  if lines.getLast? = some [] then lines.dropLast.mapM readLine else none

theorem readTime_append (tm : Tm) (rest : Bytes) : readTime (tm.text ++ rest) = tm := by
  obtain ⟨year, month, day, hour, minute, second⟩ := tm
  have hfour (n : Fin 10000) : Fin.ofNat 10000 (decVal (four n)) = n := by rw [decVal_four]; exact Fin.ofNat_val_eq_self n
  have htwo (n : Fin 100) : Fin.ofNat 100 (decVal (two n)) = n := by rw [decVal_two]; exact Fin.ofNat_val_eq_self n
  exact congr (congr (congr (congr (congr (congrArg Tm.mk (hfour year)) (htwo month)) (htwo day)) (htwo hour))
    (htwo minute)) (htwo second)

theorem readLine_line (r : LogRecord) : readLine r.line = some r := by
  have htype : readType (logChar r.type) = some r.type := by cases r.type <;> decide
  have htime : readTime (r.line.drop 3) = r.time := readTime_append r.time (bytes "]\t" ++ r.message)
  have hmessage : r.line.drop 26 = r.message := rfl
  have hhead : r.line.head? = some (logChar r.type) := rfl
  simp [readLine, hhead, htype, htime, hmessage]

def logText (rs : List LogRecord) : Bytes := rs.flatMap (·.line ++ [10])

theorem newline_notMem_line (h : 10 ∉ r.message) : 10 ∉ LogRecord.line r := by
  have htype : logChar r.type ≠ 10 := by cases r.type <;> decide
  have htime : 10 ∉ r.time.text := by
    obtain ⟨year, month, day, hour, minute, second⟩ := r.time
    have hdigit (n : Nat) : (10 : UInt8) ≠ digit n := (digit_ne n 10 (by decide)).symm
    simp [Tm.text, four, two, hdigit, bytes]
  have hopen : 10 ∉ bytes "\t[" := by decide
  have hclose : 10 ∉ bytes "]\t" := by decide
  simp only [LogRecord.line, List.mem_append, List.mem_singleton, not_or]
  exact ⟨⟨⟨⟨htype.symm, hopen⟩, htime⟩, hclose⟩, h⟩

theorem splitOn_logText (rs : List LogRecord) :
    (logText rs).splitOn 10 = rs.flatMap (·.line.splitOn 10) ++ [[]] := by
  induction rs with
  | nil => rfl
  | cons r rs ih =>
    calc (logText (r :: rs)).splitOn 10
      _ = (r.line ++ 10 :: logText rs).splitOn 10 := by simp [logText]
      _ = _ := by rw [List.splitOn_append_cons_self, ih, List.flatMap_cons, List.append_assoc]

theorem readLog_logText (rs : List LogRecord) :
    readLog (logText rs) = (rs.flatMap (·.line.splitOn 10)).mapM readLine := by
  simp [readLog, splitOn_logText]

theorem length_of_mapM {lines : List Bytes} {rs : List LogRecord} (h : lines.mapM readLine = some rs) :
    lines.length = rs.length := by
  induction lines generalizing rs with
  | nil =>
    obtain rfl : [] = rs := by simpa using h
    rfl
  | cons line lines ih =>
    obtain ⟨r, -, rest, hrest, rfl⟩ : ∃ r, readLine line = some r ∧ ∃ rest, lines.mapM readLine = some rest ∧
        r :: rest = rs := by simpa [Option.bind_eq_some_iff] using h
    rw [List.length_cons, List.length_cons, ih hrest]

theorem mapM_readLine (rs : List LogRecord) : (rs.map LogRecord.line).mapM readLine = some rs := by
  induction rs with
  | nil => rfl
  | cons r rs ih => simp [readLine_line, ih] at ih ⊢

theorem length_lines (rs : List LogRecord) :
    rs.length ≤ (rs.flatMap (·.line.splitOn 10)).length ∧
      ((∃ r ∈ rs, 10 ∈ r.message) → rs.length < (rs.flatMap (·.line.splitOn 10)).length) := by
  induction rs with
  | nil => simp
  | cons r rs ih =>
    obtain ⟨hle, hlt⟩ := ih
    have hone := List.length_pos_iff.mpr (List.splitOn_ne_nil 10 r.line)
    rw [List.flatMap_cons, List.length_append, List.length_cons]
    refine ⟨by omega, ?_⟩
    rintro ⟨bad, hbad, hmessage⟩
    rcases List.mem_cons.mp hbad with rfl | hrest
    · obtain ⟨before, behind, hline⟩ := List.append_of_mem
        (show 10 ∈ bad.line from List.mem_append_right _ hmessage)
      have hbefore := List.length_pos_iff.mpr (List.splitOn_ne_nil 10 before)
      have hbehind := List.length_pos_iff.mpr (List.splitOn_ne_nil 10 behind)
      rw [hline, List.splitOn_append_cons_self, List.length_append]
      omega
    · have := hlt ⟨bad, hrest, hmessage⟩
      omega

theorem readLog_eq_iff (rs : List LogRecord) :
    readLog (logText rs) = some rs ↔ ∀ r ∈ rs, 10 ∉ r.message := by
  rw [readLog_logText]
  constructor
  · intro h r hr hmessage
    have hlength := length_of_mapM h
    have hlines := (length_lines rs).2 ⟨r, hr, hmessage⟩
    omega
  · intro h
    have hlines : rs.flatMap (·.line.splitOn 10) = rs.map LogRecord.line := by
      rw [List.flatMap_congr fun r hr => List.splitOn_eq_singleton (newline_notMem_line (h r hr))]
      exact List.flatMap_pure_eq_map ..
    rw [hlines, mapM_readLine]

-- ---------------------------------------------------------------------------
-- Runs
-- ---------------------------------------------------------------------------

/-- A call of `msglog` with its formatted text, what is in `log_file_path` before it,
and the outcomes of the calls that it makes. -/
structure LogCall where
  type : LogType
  text : CStr
  time : Tm
  logFilePath : Bytes
  length_logFilePath : logFilePath.length = maxSysPathLength
  isDirectoryExists : Bool
  mkdir : Bool
  fopen : Bool
  memalloc : Bool

/-- A process that has initialised the logger. -/
structure Process where
  cwd : Bytes
  isIoInitialized : Bool
  isDebugging : Bool
  started : Tm

theorem zero_notMem_fileName (tm : Tm) : (0 : UInt8) ∉ tm.fileName := by
  obtain ⟨year, month, day, hour, minute, second⟩ := tm
  have hdigit (n : Nat) : (0 : UInt8) ≠ digit n := (digit_ne n 0 (by decide)).symm
  simp [Tm.fileName, four, two, hdigit, bytes]

def initLogger (isIoInitialized : Bool) (tm : Tm) : CStr :=
  if isIoInitialized ∧ tm.fileName.length < maxLogFileNameLength then ⟨tm.fileName, zero_notMem_fileName tm⟩
  else ⟨[], List.not_mem_nil⟩

def Process.logger (p : Process) (call : LogCall) : Logger where
  isIoInitialized := p.isIoInitialized
  isDebugging := p.isDebugging
  logFileName := initLogger p.isIoInitialized p.started
  isDirectoryExists := call.isDirectoryExists
  mkdir := call.mkdir

/-- The files, and `none` where `msglog` writes outside of its array. -/
def writeLog (p : Process) (files : Bytes → Bytes) (call : LogCall) : Option (Bytes → Bytes) :=
  match msglog p.cwd call.logFilePath (p.logger call) call.type with
  | .outside => none
  | .refused => some files
  | .path path =>
    if call.fopen && call.memalloc then
      (logData call.type call.time call.text.1).map fun data =>
        Function.update files (cstr path) (files (cstr path) ++ data)
    else some files

def Process.Records (p : Process) (call : LogCall) : Prop :=
  (p.logger call).Writes call.type ∧ (call.isDirectoryExists ∨ call.mkdir) ∧ call.fopen ∧ call.memalloc

instance (p : Process) (call : LogCall) : Decidable (p.Records call) :=
  inferInstanceAs (Decidable (_ ∧ _ ∧ _ ∧ _))

def Process.records (p : Process) (calls : List LogCall) : List LogRecord :=
  (calls.filter fun call => p.Records call).map fun call => logRecord call.type call.time call.text.1

def Process.path (p : Process) (dir : Bytes) : Bytes := dir ++ bytes "logs/" ++ p.started.fileName

theorem initLogger_eq (tm : Tm) : initLogger true tm = ⟨tm.fileName, zero_notMem_fileName tm⟩ :=
  if_pos ⟨rfl, by rw [length_fileName]; decide⟩

/-- Where the name fits, `msglog` gets to the file, or it was refused. -/
theorem msglog_cases (hcwd : Holds cwd dir) (hlength : logFilePath.length = maxSysPathLength) (logger : Logger)
    (type : LogType) (hfits : dir.length + 5 + logger.logFileName.1.length < maxSysPathLength) :
    (logger.Writes type ∧ (logger.isDirectoryExists ∨ logger.mkdir) ∧
        ∃ path, msglog cwd logFilePath logger type = .path path ∧
          Holds path (dir ++ bytes "logs/" ++ logger.logFileName.1)) ∨
      (¬ (logger.Writes type ∧ (logger.isDirectoryExists ∨ logger.mkdir)) ∧
        msglog cwd logFilePath logger type = .refused) := by
  have hwhole := (isWhole_msglog_iff hcwd (by omega) hlength logger type).mpr fun _ => ⟨by omega, fun _ => hfits⟩
  unfold msglog at hwhole ⊢
  by_cases hwrites : logger.Writes type
  · simp only [hwrites, if_true, true_and] at hwhole ⊢
    revert hwhole
    split
    · exact fun hwhole => hwhole.elim
    · next logDir _ =>
      by_cases hdir : logger.isDirectoryExists ∨ logger.mkdir
      · have hdir' : (logger.isDirectoryExists || logger.mkdir) = true := by simpa using hdir
        simp only [hdir', if_true, hdir, true_and, not_true_eq_false, false_and, or_false]
        cases (strlen logDir).bind fun length =>
            strncat logDir logger.logFileName.1 (maxSysPathLength - length - 1) with
        | none => exact fun hwhole => hwhole.elim
        | some path => exact fun hwhole => ⟨path, rfl, hwhole.2⟩
      · have hdir' : (logger.isDirectoryExists || logger.mkdir) = false := by simpa using hdir
        simp [hdir', hdir]
  · simp [hwrites]

theorem writeLog_eq (p : Process) (hcwd : Holds p.cwd dir) (hfits : dir.length + 28 < maxSysPathLength)
    (files : Bytes → Bytes) (call : LogCall) : writeLog p files call = some
      (Function.update files (p.path dir) (files (p.path dir) ++ logText (p.records [call]))) := by
  have hname : (initLogger p.isIoInitialized p.started).1.length ≤ 23 := by
    unfold initLogger
    split
    · exact Nat.le_of_eq (length_fileName _)
    · exact Nat.zero_le _
  have hskip (h : ¬ p.Records call) : some files = some
      (Function.update files (p.path dir) (files (p.path dir) ++ logText (p.records [call]))) := by
    simp [Process.records, h, logText]
  rcases msglog_cases hcwd call.length_logFilePath (p.logger call) call.type (by
      change dir.length + 5 + (initLogger p.isIoInitialized p.started).1.length < _
      omega) with ⟨hwrites, hdir, path, hpath, hholds⟩ | ⟨hnot, hrefused⟩
  · rw [writeLog, hpath]
    have hio : p.isIoInitialized = true := hwrites.1
    have hcstr : cstr path = p.path dir := by
      rw [hholds.cstr_eq, Process.logger, hio, initLogger_eq]
      rfl
    by_cases hio' : (call.fopen && call.memalloc) = true
    · have hrecords : p.Records call := ⟨hwrites, hdir, by simpa using hio'⟩
      simp [hio', logData_eq, hcstr, Process.records, hrecords, logText]
    · simp only [hio', Bool.false_eq_true, if_false]
      exact hskip fun h => hio' (by simp [h.2.2.1, h.2.2.2])
  · rw [writeLog, hrefused]
    exact hskip fun h => hnot ⟨h.1, h.2.1⟩

theorem logText_append (rs rs' : List LogRecord) : logText (rs ++ rs') = logText rs ++ logText rs' :=
  List.flatMap_append

theorem run_writeLog (p : Process) (hcwd : Holds p.cwd dir) (hfits : dir.length + 28 < maxSysPathLength)
    (files : Bytes → Bytes) (calls : List LogCall) : run (writeLog p) files calls = some
      (Function.update files (p.path dir) (files (p.path dir) ++ logText (p.records calls))) := by
  induction calls generalizing files with
  | nil => simp [Process.records, logText]
  | cons call calls ih =>
    have hrecords : p.records (call :: calls) = p.records [call] ++ p.records calls := by
      rw [Process.records, ← List.singleton_append, List.filter_append, List.map_append]
      rfl
    rw [run, writeLog_eq p hcwd hfits, Option.bind_some, ih, hrecords, logText_append]
    simp

/-- Over any run of calls, where the path fits, `msglog` writes to the one file and no
other; the file has the records of the calls that were not refused, each behind the one
before it, and they are read back from it as long as no message has a newline within. -/
theorem log_of_run (p : Process) (dir : Bytes) (files : Bytes → Bytes) (calls : List LogCall)
    (hcwd : Holds p.cwd dir) (hfits : dir.length + 28 < maxSysPathLength) :
    ∃ files', run (writeLog p) files calls = some files' ∧ (∀ path, path ≠ p.path dir → files' path = files path) ∧
      files' (p.path dir) = files (p.path dir) ++ logText (p.records calls) ∧
      (files (p.path dir) = [] →
        (readLog (files' (p.path dir)) = some (p.records calls) ↔ ∀ r ∈ p.records calls, 10 ∉ r.message)) := by
  refine ⟨_, run_writeLog p hcwd hfits files calls, fun path hne => Function.update_of_ne hne _ _,
    Function.update_self .., fun hempty => ?_⟩
  rw [Function.update_self, hempty, List.nil_append]
  exact readLog_eq_iff _

def sampleProcess : Process where
  cwd := strncpy maxSysPathLength (bytes "/srv/")
  isIoInitialized := true
  isDebugging := false
  started := ⟨2025, 11, 3, 9, 30, 0⟩

def sampleCall : LogCall where
  type := .warning
  text := ⟨bytes "No init node available.\n", by decide +kernel⟩
  time := ⟨2025, 11, 3, 9, 30, 1⟩
  logFilePath := List.replicate maxSysPathLength 0
  length_logFilePath := List.length_replicate
  isDirectoryExists := false
  mkdir := true
  fopen := true
  memalloc := true

/-- A file that cannot be opened, a message of a level that is not written, and two more
messages, the first with a newline that is not printed. -/
def sampleCalls : List LogCall :=
  [sampleCall, { sampleCall with fopen := false }, { sampleCall with type := .debug },
    { sampleCall with
      type := .info
      text := ⟨bytes "Listening.", by decide +kernel⟩
      time := ⟨2025, 11, 3, 9, 30, 2⟩
      isDirectoryExists := true }]

theorem log_of_run_sample : ∃ files', run (writeLog sampleProcess) (fun _ => []) sampleCalls = some files' ∧
    readLog (files' (bytes "/srv/logs/2025-11-03_09-30-00.log")) =
      some [⟨.warning, ⟨2025, 11, 3, 9, 30, 1⟩, bytes "No init node available."⟩,
        ⟨.info, ⟨2025, 11, 3, 9, 30, 2⟩, bytes "Listening."⟩] := by
  have hpath : sampleProcess.path (bytes "/srv/") = bytes "/srv/logs/2025-11-03_09-30-00.log" := by decide +kernel
  have hrecords : sampleProcess.records sampleCalls =
      [⟨.warning, ⟨2025, 11, 3, 9, 30, 1⟩, bytes "No init node available."⟩,
        ⟨.info, ⟨2025, 11, 3, 9, 30, 2⟩, bytes "Listening."⟩] := by decide +kernel
  obtain ⟨files', hrun, -, -, hread⟩ :=
    log_of_run sampleProcess (bytes "/srv/") (fun _ => []) sampleCalls holds_srv (by decide)
  rw [hpath, hrecords] at hread
  exact ⟨files', hrun, (hread rfl).mpr (by decide)⟩

end GeoNS.Io
