import GeoNS.Db.Table

/-!
# What the query texts say

Each template hands its server and port to SQLite as one literal and one
number. The text says what is meant exactly when the server has no quote and
the array holds the whole of it.
-/

namespace GeoNS.Db

open CString SqlLexer

-- ---------------------------------------------------------------------------
-- The texts as tokens
-- ---------------------------------------------------------------------------

theorem lexFrom_dec (n : Nat) (hc : isIdChar c = false) (t : Bytes) :
    lexFrom .start (dec n ++ c :: t) = .number (dec n) :: lexFrom .start (c :: t) :=
  lexFrom_number_end (dec_ne_nil n) (fun _ => isdigit_of_mem_dec) hc t

theorem lexFrom_matchTail (n : Nat) :
    lexFrom .start (bytes " AND node_gateway = " ++ (dec n ++ bytes ";")) =
      [word "AND", word "node_gateway", .symbol 61, .number (dec n), .symbol 59] := by
  have hpre : advance .start (bytes " AND node_gateway = ") =
      (.start, [word "AND", word "node_gateway", .symbol 61]) := by decide
  have hend : lexFrom .start (bytes ";") = [.symbol 59] := by decide
  rw [lexFrom_of_advance hpre]
  have hnumber := lexFrom_dec n (c := 59) (by decide) []
  rw [show (59 : UInt8) :: [] = bytes ";" from rfl, hend] at hnumber
  rw [hnumber]
  rfl

theorem lexFrom_valuesTail (n : Nat) :
    lexFrom .start (bytes ", " ++ (dec n ++ bytes ", 'active')")) =
      [.symbol 44, .number (dec n), .symbol 44, .text active, .symbol 41] := by
  have hpre : advance .start (bytes ", ") = (.start, [.symbol 44]) := by decide
  have hend : lexFrom .start (bytes ", 'active')") = [.symbol 44, .text active, .symbol 41] := by
    decide
  rw [lexFrom_of_advance hpre]
  have hnumber := lexFrom_dec n (c := 44) (by decide) (bytes " 'active')")
  rw [show (44 : UInt8) :: bytes " 'active')" = bytes ", 'active')" from rfl, hend] at hnumber
  rw [hnumber]
  rfl

theorem lex_selectText_iff :
    lex (selectText server port) = (Stmt.selectNode server port.toNat).tokens ↔
      (39 : UInt8) ∉ server := by
  have hpre : advance .start (bytes "SELECT * FROM nodes WHERE server = '") =
      (.text [], selectFrom ++ [word "server", .symbol 61]) := by decide
  exact lexFrom_literal_iff hpre (by decide) (lexFrom_matchTail port.toNat)

theorem lex_removeText_iff :
    lex (removeText server port) = (Stmt.deleteNode server port.toNat).tokens ↔
      (39 : UInt8) ∉ server := by
  have hpre : advance .start (bytes "DELETE FROM nodes WHERE server = '") =
      (.text [], [word "DELETE", word "FROM", word "nodes", word "WHERE", word "server",
        .symbol 61]) := by decide
  exact lexFrom_literal_iff hpre (by decide) (lexFrom_matchTail port.toNat)

theorem lex_insertText_iff :
    lex (insertText server port) = (Stmt.insertNode server port.toNat).tokens ↔
      (39 : UInt8) ∉ server := by
  have hpre : advance .start (bytes "INSERT INTO nodes (server, node_gateway, status) VALUES ('") =
      (.text [], [word "INSERT", word "INTO", word "nodes", .symbol 40, word "server", .symbol 44,
        word "node_gateway", .symbol 44, word "status", .symbol 41, word "VALUES",
        .symbol 40]) := by decide
  exact lexFrom_literal_iff hpre (by decide) (lexFrom_valuesTail port.toNat)

-- ---------------------------------------------------------------------------
-- Texts that are read as meant
-- ---------------------------------------------------------------------------

/-- No quote, and the longest of the three texts fits its array. -/
def Plain (server : Bytes) (port : UInt16) : Prop :=
  (39 : UInt8) ∉ server ∧ (insertText server port).length < maxSqlQuerySize

instance : Decidable (Plain server port) := inferInstanceAs (Decidable (_ ∧ _))

theorem sqlQuery_eq_self_iff : sqlQuery text = text ↔ text.length < maxSqlQuerySize :=
  snprintf_eq_self_iff (by decide)

theorem length_selectText_lt (server : Bytes) (port : UInt16) :
    (selectText server port).length < (insertText server port).length := by
  simp [selectText, insertText, bytes]
  omega

theorem length_removeText_lt (server : Bytes) (port : UInt16) :
    (removeText server port).length < (insertText server port).length := by
  simp [removeText, insertText, bytes]
  omega

theorem Plain.select_whole (h : Plain server port) :
    sqlQuery (selectText server port) = selectText server port :=
  sqlQuery_eq_self_iff.mpr ((length_selectText_lt server port).trans h.2)

theorem Plain.remove_whole (h : Plain server port) :
    sqlQuery (removeText server port) = removeText server port :=
  sqlQuery_eq_self_iff.mpr ((length_removeText_lt server port).trans h.2)

theorem Plain.insert_whole (h : Plain server port) :
    sqlQuery (insertText server port) = insertText server port :=
  sqlQuery_eq_self_iff.mpr h.2

theorem Plain.rows (h : Plain server port) (sq : Sqlite) (nodes : List Row) :
    sq.rows (sqlQuery (selectText server port)) nodes =
      some (nodes.filter (·.isNode server port.toNat)) := by
  rw [h.select_whole, Sqlite.rows, lex_selectText_iff.mpr h.1, Stmt.read_tokens]

theorem Plain.run_remove (h : Plain server port) (sq : Sqlite) (nodes : List Row) :
    sq.run (sqlQuery (removeText server port)) nodes =
      (true, nodes.filter (!·.isNode server port.toNat)) := by
  rw [h.remove_whole, Sqlite.run, lex_removeText_iff.mpr h.1, Stmt.read_tokens]

theorem Plain.run_insert (h : Plain server port) (sq : Sqlite) (nodes : List Row) :
    sq.run (sqlQuery (insertText server port)) nodes =
      if Row.check ⟨server, port.toNat, active⟩ then
        (true, nodes ++ [⟨server, port.toNat, active⟩])
      else (false, nodes) := by
  rw [h.insert_whole, Sqlite.run, lex_insertText_iff.mpr h.1, Stmt.read_tokens]

theorem length_insertText_le (server : Bytes) (port : UInt16) :
    (insertText server port).length ≤ server.length + 100 := by
  have hport : (dec port.toNat).length ≤ 5 := length_dec_le (by have := port.toNat_lt; omega)
  simp [insertText, bytes]
  omega

theorem lex_activeText (n : UInt8) : lex (activeText n) = (Stmt.selectActive n.toNat).tokens := by
  have hpre : advance .start (bytes "SELECT * FROM nodes WHERE status = 'active' LIMIT ") =
      (.start, selectFrom ++ [word "status", .symbol 61, .text active, word "LIMIT"]) := by decide
  have hend : lexFrom .start (bytes ";") = [.symbol 59] := by decide
  have hnumber := lexFrom_dec n.toNat (c := 59) (by decide) []
  rw [show (59 : UInt8) :: [] = bytes ";" from rfl, hend] at hnumber
  rw [lex, activeText, lexFrom_of_advance hpre, hnumber]
  rfl

theorem rows_activeText (sq : Sqlite) (n : UInt8) (nodes : List Row) :
    sq.rows (sqlQuery (activeText n)) nodes =
      some ((nodes.filter (·.status == active)).take n.toNat) := by
  have hwhole : sqlQuery (activeText n) = activeText n := by
    have hn : (dec n.toNat).length ≤ 3 := length_dec_le (by have := n.toNat_lt; omega)
    rw [sqlQuery_eq_self_iff]
    simp [activeText, bytes, maxSqlQuerySize]
    omega
  rw [hwhole, Sqlite.rows, lex_activeText, Stmt.read_tokens]

theorem collectNodes_ok (i : Nat) (rows : List Row) :
    collectNodes .ok i rows = some (rows.map Row.toNode) := by
  induction rows generalizing i with
  | nil => rfl
  | cons r rows ih =>
    rw [collectNodes, ih]
    rfl

theorem getAllActiveNodes_ok (sq : Sqlite) (nodes : List Row) (n : UInt8) :
    getAllActiveNodes sq .ok ⟨false, nodes⟩ n =
      some (((nodes.filter (·.status == active)).take n.toNat).map Row.toNode) := by
  rw [getAllActiveNodes, rows_activeText, Option.bind_some, collectNodes_ok]
  rfl

theorem lengthFrom_le (inside : Bool) (v : Bytes) : lengthFrom inside v ≤ v.length := by
  induction v generalizing inside with
  | nil => exact Nat.le_refl 0
  | cons c cs ih =>
    unfold lengthFrom
    split
    · exact (ih true).trans (Nat.le_succ _)
    · exact Nat.succ_le_succ (ih _)

/-- What the `SELECT` finds. -/
theorem selectNode_plain (h : Plain server port) (sq : Sqlite) (io : Calls) (db : Database) :
    selectNode sq io db server port =
      if io.prepare then
        if io.step && db.nodes.any (·.isNode server port.toNat) then .row else .noRow
      else .error := by
  have hany : (!(db.nodes.filter (·.isNode server port.toNat)).isEmpty) =
      db.nodes.any (·.isNode server port.toNat) := by
    rw [Bool.eq_iff_iff]
    simp
  rw [selectNode, h.rows]
  simp only [hany]

/-- What the `INSERT` does. -/
theorem insertRow_plain (h : Plain server port) (sq : Sqlite) (io : Calls) (db : Database) :
    insertRow sq io db server port =
      if io.exec && Row.check ⟨server, port.toNat, active⟩ then
        (1, { db with nodes := db.nodes ++ [⟨server, port.toNat, active⟩] })
      else (0, db) := by
  rw [insertRow, dbExec, h.run_insert]
  cases io.exec <;> cases hcheck : Row.check ⟨server, port.toNat, active⟩ <;> simp

/-- The outcomes `insertNewNode` is allowed: an error or a known node and the
same table, or exactly one row more. -/
def Inserted (db : Database) (server : Bytes) (port : UInt16) (r : UInt8 × Database) : Prop :=
  ((r.1 = 2 ∨ r.1 = 0) ∧ r.2 = db) ∨
    (r.1 = 1 ∧ r.2 = { db with nodes := db.nodes ++ [⟨server, port.toNat, active⟩] })

theorem insertNewNode_inserted (h : Plain server port) (sq : Sqlite) (io : Calls) (db : Database) :
    Inserted db server port (insertNewNode sq io db server port) := by
  unfold insertNewNode
  split
  · exact .inl ⟨.inr rfl, rfl⟩
  · split
    · exact .inl ⟨.inr rfl, rfl⟩
    · exact .inl ⟨.inl rfl, rfl⟩
    · rw [insertRow_plain h]
      split
      · exact .inr ⟨rfl, rfl⟩
      · exact .inl ⟨.inr rfl, rfl⟩

theorem removeNode_plain (h : Plain server port) (sq : Sqlite) (io : Calls) (db : Database) :
    removeNode sq io db server port =
      if io.exec then (1, { db with nodes := db.nodes.filter (!·.isNode server port.toNat) })
      else (0, db) := by
  rw [removeNode, dbExec, h.run_remove]
  rfl

-- ---------------------------------------------------------------------------
-- Which insertions add a row
-- ---------------------------------------------------------------------------

/-- The row is added: the database is a local one, its calls go through, the pair is
not found, and the server passes the `CHECK`. -/
structure Adds (io : Calls) (db : Database) (server : Bytes) (port : UInt16) : Prop where
  isLocal : db.isLedger = false
  prepared : io.prepare
  missing : (io.step && db.nodes.any (·.isNode server port.toNat)) = false
  executed : io.exec
  short : length server ≤ 15

theorem check_active (server : Bytes) (port : Int) :
    Row.check ⟨server, port, active⟩ ↔ length server ≤ 15 := by
  simp [Row.check]

theorem insertNewNode_adds (hplain : Plain server port) (h : Adds io db server port) (sq : Sqlite) :
    (insertNewNode sq io db server port).2 =
      { db with nodes := db.nodes ++ [⟨server, port.toNat, active⟩] } := by
  have hcheck : Row.check ⟨server, port.toNat, active⟩ := (check_active ..).mpr h.short
  simp only [insertNewNode, h.isLocal, selectNode_plain hplain, h.prepared, h.missing,
    insertRow_plain hplain, h.executed, hcheck, Bool.and_self, Bool.false_eq_true, if_false, if_true]

theorem insertNewNode_not_adds (hplain : Plain server port) (h : ¬ Adds io db server port)
    (sq : Sqlite) : (insertNewNode sq io db server port).2 = db := by
  unfold insertNewNode
  split
  · rfl
  rename_i hlocal
  rw [selectNode_plain hplain, insertRow_plain hplain]
  split
  · rfl
  · rfl
  rename_i hfound
  split at hfound
  case isFalse => contradiction
  rename_i hprepared
  split at hfound
  · contradiction
  rename_i hmissing
  split
  case isFalse => rfl
  rename_i hrow
  obtain ⟨hexecuted, hcheck⟩ := Bool.and_eq_true_iff.mp hrow
  exact absurd ⟨by simpa using hlocal, hprepared, by simpa using hmissing, hexecuted,
    (check_active ..).mp hcheck⟩ h

/-- A server the `CHECK` refuses changes nothing. -/
theorem insertNewNode_long (h : Plain server port) (hlong : 15 < length server) (sq : Sqlite)
    (io : Calls) (db : Database) : (insertNewNode sq io db server port).2 = db :=
  insertNewNode_not_adds h (fun hadds => absurd hadds.short (Nat.not_le.mpr hlong)) sq

/-- The three texts reach SQLite whole, each as one statement of the intended
shape with the server and the port as its literal and its number, and the
insertion has one of its allowed outcomes. -/
structure Faithful (serverAddr : CStr) (port : UInt16) : Prop where
  select_whole : sqlQuery (selectText serverAddr port) = selectText serverAddr port
  insert_whole : sqlQuery (insertText serverAddr port) = insertText serverAddr port
  remove_whole : sqlQuery (removeText serverAddr port) = removeText serverAddr port
  select : lex (sqlQuery (selectText serverAddr port)) =
    (Stmt.selectNode serverAddr port.toNat).tokens
  insert : lex (sqlQuery (insertText serverAddr port)) =
    (Stmt.insertNode serverAddr port.toNat).tokens
  remove : lex (sqlQuery (removeText serverAddr port)) =
    (Stmt.deleteNode serverAddr port.toNat).tokens
  outcome : ∀ sq io db, Inserted db serverAddr port (insertNewNode sq io db serverAddr port)

theorem faithful_iff (serverAddr : CStr) (port : UInt16) :
    Faithful serverAddr port ↔
      (39 : UInt8) ∉ serverAddr.1 ∧ (insertText serverAddr port).length < maxSqlQuerySize := by
  constructor
  · intro h
    have hselect := h.select
    rw [h.select_whole] at hselect
    exact ⟨lex_selectText_iff.mp hselect, sqlQuery_eq_self_iff.mp h.insert_whole⟩
  · intro h
    have hp : Plain serverAddr port := h
    exact {
      select_whole := hp.select_whole
      insert_whole := hp.insert_whole
      remove_whole := hp.remove_whole
      select := by rw [hp.select_whole, lex_selectText_iff.mpr h.1]
      insert := by rw [hp.insert_whole, lex_insertText_iff.mpr h.1]
      remove := by rw [hp.remove_whole, lex_removeText_iff.mpr h.1]
      outcome := insertNewNode_inserted hp }

theorem not_faithful_quoted : ¬ Faithful ⟨bytes "x' OR '1'='1", by decide⟩ 9060 := by
  intro h
  have hselect := h.select
  revert hselect
  decide

end GeoNS.Db
