import Mathlib
import GeoNS.Db.Handles

/-!
# Lifetimes of databases

A `Database` is disconnected once, with a handle of its own, unless a query of
its initialisation does not compile, the nodes of a request cannot be read, or
a server is given up before it connects its databases.
-/

namespace GeoNS.Db.Handles

-- ---------------------------------------------------------------------------
-- Runs of the functions
-- ---------------------------------------------------------------------------

variable {dbs : List Database} {log : List Event} {d : Nat} {db : Database}

theorem run_bind_ok {x : M α} {f : α → M β} (h : x.run w = .ok a w') :
    (x >>= f).run w = (f a).run w' := by
  rw [EStateM.run_bind, h]

theorem run_bind_error {x : M α} {f : α → M β} (h : x.run w = .error e w') :
    (x >>= f).run w = .error e w' := by
  rw [EStateM.run_bind, h]

theorem run_read (h : dbs[d]? = some db) (hfreed : db.freed = false) :
    (read d).run ⟨dbs, log⟩ = .ok db ⟨dbs, log⟩ := by
  have hget : (get : M World).run ⟨dbs, log⟩ = .ok ⟨dbs, log⟩ ⟨dbs, log⟩ := rfl
  rw [read, run_bind_ok hget, h]
  simp only [hfreed, Bool.false_eq_true, if_false]
  rfl

theorem run_read_freed (h : dbs[d]? = some db) (hfreed : db.freed) :
    (read d).run ⟨dbs, log⟩ = .error .fault ⟨dbs, log⟩ := by
  have hget : (get : M World).run ⟨dbs, log⟩ = .ok ⟨dbs, log⟩ ⟨dbs, log⟩ := rfl
  rw [read, run_bind_ok hget, h]
  simp only [hfreed, if_true]
  rfl

theorem run_emit (e : Event) : (emit e).run ⟨dbs, log⟩ = .ok () ⟨dbs, log ++ [e]⟩ := rfl

theorem run_write (d : Nat) (db : Database) :
    (write d db).run ⟨dbs, log⟩ = .ok () ⟨dbs.set d db, log⟩ := rfl

theorem run_dbOpen (set isLedger : Bool) :
    (dbOpen (some set) isLedger).run ⟨dbs, log⟩ = .ok (some dbs.length)
      ⟨dbs ++ [⟨isLedger, .indeterminate set, false⟩], log ++ [Event.opened dbs.length]⟩ := rfl

def goodbye (d : Nat) (handle : Handle) : List Event :=
  .disconnected d :: if handle.isSet then [.closed d handle] else []

theorem run_dbDisconnect (h : dbs[d]? = some db) (hfreed : db.freed = false) :
    (dbDisconnect (some d)).run ⟨dbs, log⟩ =
      .ok () ⟨dbs.set d { db with freed := true }, log ++ goodbye d db.handle⟩ := by
  rw [dbDisconnect, run_bind_ok (run_emit _), run_bind_ok (run_read h hfreed), goodbye]
  cases hset : db.handle.isSet with
  | true =>
    rw [if_pos rfl, run_bind_ok (run_emit _), run_write]
    simp
  | false =>
    rw [if_neg (by simp), run_write]
    simp

def Connected (dbs : List Database) (d : Nat) (isLedger : Bool) : Prop :=
  dbs[d]? = some ⟨isLedger, .opened, false⟩

theorem run_query (h : Connected dbs d isLedger) : (query d).run ⟨dbs, log⟩ = .ok () ⟨dbs, log⟩ := by
  rw [query, run_bind_ok (run_read h rfl)]
  rfl

theorem run_queries (h : Connected dbs d isLedger) (n : Nat) :
    (queries d n).run ⟨dbs, log⟩ = .ok () ⟨dbs, log⟩ := by
  induction n with
  | zero => rfl
  | succ n ih => rw [queries, run_bind_ok (run_query h), ih]

theorem run_exchanges (h : Connected dbs d isLedger) (ns : List Nat) :
    (exchanges d ns).run ⟨dbs, log⟩ = .ok () ⟨dbs, log⟩ := by
  induction ns with
  | nil => rfl
  | cons n ns ih => rw [exchanges, run_bind_ok (run_queries h n), ih]

-- ---------------------------------------------------------------------------
-- Connecting
-- ---------------------------------------------------------------------------

def Connect.Inits (calls : Connect) : Prop :=
  calls.check ≠ .error ∧ (calls.check ≠ .row true → calls.status ≠ .error)

instance (calls : Connect) : Decidable calls.Inits := inferInstanceAs (Decidable (_ ∧ _))

theorem run_isGeonsConfigured (h : Connected dbs d false) (hreply : reply ≠ .error) :
    (isGeonsConfigured reply d).run ⟨dbs, log⟩ = .ok (reply == .row true) ⟨dbs, log⟩ := by
  unfold isGeonsConfigured
  rw [run_bind_ok (run_read h rfl), if_neg (by simp), run_bind_ok (run_query h)]
  cases reply with
  | error => contradiction
  | row value => cases value <;> rfl
  | noRow => rfl

theorem run_isGeonsConfigured_error (h : Connected dbs d false) :
    (isGeonsConfigured .error d).run ⟨dbs, log⟩ =
      .ok false ⟨dbs.set d ⟨false, .opened, true⟩, log ++ goodbye d .opened⟩ := by
  unfold isGeonsConfigured
  rw [run_bind_ok (run_read h rfl), if_neg (by simp), run_bind_ok (run_query h),
    run_bind_ok (run_dbDisconnect h rfl)]
  rfl

theorem run_setGeonsSettingsConfigStatus (h : Connected dbs d false) (hreply : reply ≠ .error) :
    (setGeonsSettingsConfigStatus reply d).run ⟨dbs, log⟩ = .ok () ⟨dbs, log⟩ := by
  rw [setGeonsSettingsConfigStatus, run_bind_ok (run_read h rfl), if_neg (by simp),
    run_bind_ok (run_query h)]
  cases reply with
  | error => contradiction
  | row value =>
    cases value with
    | true => rfl
    | false => exact run_query h
  | noRow => exact run_query h

/-- `db_disconnect` has freed the database that is used then. -/
theorem run_setGeonsSettingsConfigStatus_error (h : Connected dbs d false) :
    ∃ w, (setGeonsSettingsConfigStatus .error d).run ⟨dbs, log⟩ = .error .fault w := by
  have hlt : d < dbs.length := (List.getElem?_eq_some_iff.mp h).1
  have hfreed : (dbs.set d ⟨false, .opened, true⟩)[d]? = some ⟨false, .opened, true⟩ :=
    List.getElem?_set_self hlt
  rw [setGeonsSettingsConfigStatus, run_bind_ok (run_read h rfl), if_neg (by simp),
    run_bind_ok (run_query h)]
  refine ⟨⟨dbs.set d ⟨false, .opened, true⟩, log ++ goodbye d .opened⟩, ?_⟩
  dsimp only
  rw [run_bind_ok (run_dbDisconnect h rfl)]
  show (query d).run ⟨dbs.set d ⟨false, .opened, true⟩, log ++ goodbye d .opened⟩ = _
  exact run_bind_error (run_read_freed hfreed rfl)

theorem run_insertDefaultValues (h : Connected dbs d false) (hreply : reply ≠ .error) :
    (insertDefaultValues reply d).run ⟨dbs, log⟩ = .ok () ⟨dbs, log⟩ := by
  rw [insertDefaultValues, run_bind_ok (run_read h rfl), if_neg (by simp),
    run_bind_ok (run_read h rfl)]
  exact run_setGeonsSettingsConfigStatus h hreply

theorem run_insertDefaultValues_error (h : Connected dbs d false) :
    ∃ w, (insertDefaultValues .error d).run ⟨dbs, log⟩ = .error .fault w := by
  rw [insertDefaultValues, run_bind_ok (run_read h rfl), if_neg (by simp),
    run_bind_ok (run_read h rfl)]
  exact run_setGeonsSettingsConfigStatus_error h

theorem run_dbInit_ledger (h : Connected dbs d true) :
    (dbInit calls d).run ⟨dbs, log⟩ = .ok () ⟨dbs, log⟩ := by
  have hconfigured : (isGeonsConfigured calls.check d).run ⟨dbs, log⟩ = .ok true ⟨dbs, log⟩ := by
    unfold isGeonsConfigured
    rw [run_bind_ok (run_read h rfl)]
    rfl
  rw [dbInit, createDefaultTables, run_bind_ok (run_read h rfl), run_bind_ok (run_queries h _),
    run_bind_ok hconfigured]
  rfl

theorem run_dbInit (h : Connected dbs d false) (hinits : calls.Inits) :
    (dbInit calls d).run ⟨dbs, log⟩ = .ok () ⟨dbs, log⟩ := by
  rw [dbInit, createDefaultTables, run_bind_ok (run_read h rfl), run_bind_ok (run_queries h _),
    run_bind_ok (run_isGeonsConfigured h hinits.1)]
  by_cases hcheck : calls.check = .row true
  · rw [hcheck]
    rfl
  · have hfalse : (calls.check == .row true) = false := by simpa using hcheck
    rw [hfalse]
    exact run_insertDefaultValues h (hinits.2 hcheck)

theorem run_dbInit_error (h : Connected dbs d false) (hinits : ¬ calls.Inits) :
    ∃ w, (dbInit calls d).run ⟨dbs, log⟩ = .error .fault w := by
  have hlt : d < dbs.length := (List.getElem?_eq_some_iff.mp h).1
  have hfreed : (dbs.set d ⟨false, .opened, true⟩)[d]? = some ⟨false, .opened, true⟩ :=
    List.getElem?_set_self hlt
  rw [dbInit, createDefaultTables, run_bind_ok (run_read h rfl), run_bind_ok (run_queries h _)]
  by_cases hcheck : calls.check = .error
  · rw [hcheck, run_bind_ok (run_isGeonsConfigured_error h)]
    exact ⟨_, run_bind_error (run_read_freed hfreed rfl)⟩
  · have hnot : calls.check ≠ .row true ∧ calls.status = .error := by
      simpa [Connect.Inits, hcheck] using hinits
    have hfalse : (calls.check == .row true) = false := by simpa using hnot.1
    rw [run_bind_ok (run_isGeonsConfigured h hcheck), hfalse, hnot.2]
    exact run_insertDefaultValues_error h

theorem run_dbConnect_ledger (h : dbs[d]? = some ⟨true, handle, false⟩) (hopening : calls.opening = .ok) :
    (dbConnect calls d).run ⟨dbs, log⟩ = .ok () ⟨dbs.set d ⟨true, .opened, false⟩, log⟩ := by
  have hlt : d < dbs.length := (List.getElem?_eq_some_iff.mp h).1
  have hconnected : Connected (dbs.set d ⟨true, .opened, false⟩) d true := List.getElem?_set_self hlt
  rw [dbConnect, run_bind_ok (run_read h rfl), hopening, run_bind_ok (run_write _ _)]
  exact run_dbInit_ledger hconnected

theorem run_dbConnect (h : dbs[d]? = some ⟨false, handle, false⟩) (hopening : calls.opening = .ok)
    (hinits : calls.Inits) :
    (dbConnect calls d).run ⟨dbs, log⟩ = .ok () ⟨dbs.set d ⟨false, .opened, false⟩, log⟩ := by
  have hlt : d < dbs.length := (List.getElem?_eq_some_iff.mp h).1
  have hconnected : Connected (dbs.set d ⟨false, .opened, false⟩) d false := List.getElem?_set_self hlt
  rw [dbConnect, run_bind_ok (run_read h rfl), hopening, run_bind_ok (run_write _ _)]
  exact run_dbInit hconnected hinits

theorem run_dbConnect_error (log : List Event) (h : dbs[d]? = some ⟨false, handle, false⟩) (hopening : calls.opening = .ok)
    (hinits : ¬ calls.Inits) : ∃ w, (dbConnect calls d).run ⟨dbs, log⟩ = .error .fault w := by
  have hlt : d < dbs.length := (List.getElem?_eq_some_iff.mp h).1
  have hconnected : Connected (dbs.set d ⟨false, .opened, false⟩) d false := List.getElem?_set_self hlt
  rw [dbConnect, run_bind_ok (run_read h rfl), hopening, run_bind_ok (run_write _ _)]
  exact run_dbInit_error hconnected hinits

def Opening.handle (opening : Opening) : Handle := if opening = .noMemory then .null else .opened

theorem run_dbConnect_exit (log : List Event) (h : dbs[d]? = some ⟨isLedger, handle, false⟩) (hopening : calls.opening ≠ .ok) :
    ∃ dbs', (dbConnect calls d).run ⟨dbs, log⟩ =
      .error .exit ⟨dbs', log ++ goodbye d calls.opening.handle⟩ := by
  have hlt : d < dbs.length := (List.getElem?_eq_some_iff.mp h).1
  have hwritten : (dbs.set d ⟨isLedger, calls.opening.handle, false⟩)[d]? =
      some ⟨isLedger, calls.opening.handle, false⟩ := List.getElem?_set_self hlt
  refine ⟨(dbs.set d ⟨isLedger, calls.opening.handle, false⟩).set d
    ⟨isLedger, calls.opening.handle, true⟩, ?_⟩
  rw [dbConnect, run_bind_ok (run_read h rfl), run_bind_ok (run_write _ _), if_pos hopening]
  exact run_bind_ok (run_dbDisconnect hwritten rfl)

-- ---------------------------------------------------------------------------
-- A database from its opening to its end
-- ---------------------------------------------------------------------------

/-- A connection that opens its database reaches its queries. -/
def Connect.Clean (calls : Connect) : Prop := calls.opening = .ok → calls.Inits

instance (calls : Connect) : Decidable calls.Clean := inferInstanceAs (Decidable (_ → _))

def life (d : Nat) : List Event := .opened d :: goodbye d .opened

def opening (db : Option Bool) (calls : Connect) (none : M α) (rest : Nat → M α) : M α := do
  match ← dbOpen db false with
  | .none => none
  | some d =>
    dbConnect calls d
    rest d

theorem set_last (dbs : List Database) (db db' : Database) :
    (dbs ++ [db]).set dbs.length db' = dbs ++ [db'] := by simp

section Opening

variable {calls : Connect} {none : M α} {rest : Nat → M α}

theorem run_opening (isSet : Bool) (hopening : calls.opening = .ok) (hinits : calls.Inits) :
    (opening (some isSet) calls none rest).run ⟨dbs, log⟩ =
      (rest dbs.length).run ⟨dbs ++ [⟨false, .opened, false⟩], log ++ [Event.opened dbs.length]⟩ := by
  have hlast : (dbs ++ [⟨false, .indeterminate isSet, false⟩])[dbs.length]? =
      some ⟨false, .indeterminate isSet, false⟩ := List.getElem?_concat_length
  rw [opening, run_bind_ok (run_dbOpen isSet false)]
  dsimp only
  rw [run_bind_ok (run_dbConnect hlast hopening hinits), set_last]

theorem run_opening_error (dbs : List Database) (log : List Event) (isSet : Bool) (hopening : calls.opening = .ok) (hinits : ¬ calls.Inits) :
    ∃ w, (opening (some isSet) calls none rest).run ⟨dbs, log⟩ = .error .fault w := by
  have hlast : (dbs ++ [⟨false, .indeterminate isSet, false⟩])[dbs.length]? =
      some ⟨false, .indeterminate isSet, false⟩ := List.getElem?_concat_length
  obtain ⟨w, herror⟩ := run_dbConnect_error (log ++ [Event.opened dbs.length]) hlast hopening hinits
  refine ⟨w, ?_⟩
  rw [opening, run_bind_ok (run_dbOpen isSet false)]
  exact run_bind_error herror

theorem run_opening_exit (dbs : List Database) (log : List Event) (isSet : Bool) (hopening : calls.opening ≠ .ok) :
    ∃ dbs', (opening (some isSet) calls none rest).run ⟨dbs, log⟩ =
      .error .exit ⟨dbs', log ++ Event.opened dbs.length :: goodbye dbs.length calls.opening.handle⟩ := by
  have hlast : (dbs ++ [⟨false, .indeterminate isSet, false⟩])[dbs.length]? =
      some ⟨false, .indeterminate isSet, false⟩ := List.getElem?_concat_length
  obtain ⟨dbs', hexit⟩ := run_dbConnect_exit (log ++ [Event.opened dbs.length]) hlast hopening
  refine ⟨dbs', ?_⟩
  rw [opening, run_bind_ok (run_dbOpen isSet false)]
  rw [List.append_assoc] at hexit
  exact run_bind_error hexit

end Opening

theorem run_dbDisconnect_last (dbs : List Database) (log : List Event) :
    (dbDisconnect (some dbs.length)).run ⟨dbs ++ [⟨false, .opened, false⟩], log ++ [Event.opened dbs.length]⟩ =
      .ok () ⟨dbs ++ [⟨false, .opened, true⟩], log ++ life dbs.length⟩ := by
  have hlast : (dbs ++ [⟨false, .opened, false⟩])[dbs.length]? = some ⟨false, .opened, false⟩ :=
    List.getElem?_concat_length
  rw [run_dbDisconnect hlast rfl, set_last, List.append_assoc]
  rfl

theorem connected_last (dbs : List Database) : Connected (dbs ++ [⟨false, .opened, false⟩]) dbs.length false :=
  List.getElem?_concat_length

-- ---------------------------------------------------------------------------
-- The owners' runs
-- ---------------------------------------------------------------------------

def readNodes (nodes : Option (List Nat)) (d : Nat) : M Bool := do
  query d
  match nodes with
  | none =>
    dbDisconnect (some d)
    return false
  | some nodes =>
    exchanges d nodes
    dbDisconnect (some d)
    return true

theorem connectLocaldbNodeServers_eq (calls : LocaldbCalls) :
    connectLocaldbNodeServers calls =
      opening calls.db calls.connect (pure false) (readNodes calls.nodes) := rfl

theorem run_readNodes (dbs : List Database) (log : List Event) (nodes : Option (List Nat)) :
    (readNodes nodes dbs.length).run
        ⟨dbs ++ [⟨false, .opened, false⟩], log ++ [Event.opened dbs.length]⟩ =
      .ok nodes.isSome ⟨dbs ++ [⟨false, .opened, true⟩], log ++ life dbs.length⟩ := by
  unfold readNodes
  rw [run_bind_ok (run_query (connected_last dbs))]
  cases nodes with
  | none => exact run_bind_ok (run_dbDisconnect_last dbs log)
  | some nodes =>
    dsimp only
    rw [run_bind_ok (run_exchanges (connected_last dbs) nodes)]
    exact run_bind_ok (run_dbDisconnect_last dbs log)

theorem connectInitNodeServers_eq (calls : InitCalls) :
    connectInitNodeServers calls =
      opening calls.db calls.connect (pure false) (fun d => do
        exchanges d calls.nodes
        dbDisconnect (some d)
        connectLocaldbNodeServers calls.localdb) := rfl

theorem run_connectInitNodeServers (isSet : Bool) (hdb : calls.db = some isSet)
    (hopening : calls.connect.opening = .ok) (hinits : calls.connect.Inits) :
    (connectInitNodeServers calls).run ⟨dbs, log⟩ =
      (connectLocaldbNodeServers calls.localdb).run
        ⟨dbs ++ [⟨false, .opened, true⟩], log ++ life dbs.length⟩ := by
  rw [connectInitNodeServers_eq, hdb, run_opening isSet hopening hinits,
    run_bind_ok (run_exchanges (connected_last dbs) _), run_bind_ok (run_dbDisconnect_last dbs log)]

-- ---------------------------------------------------------------------------
-- The outcomes that settle every database
-- ---------------------------------------------------------------------------

def LocaldbCalls.Clean (calls : LocaldbCalls) : Prop := calls.db ≠ none → calls.connect.Clean

def LocaldbCalls.Succeeds (calls : LocaldbCalls) : Prop :=
  calls.db ≠ none ∧ calls.connect.opening = .ok ∧ calls.nodes ≠ none

def InitCalls.Clean (calls : InitCalls) : Prop :=
  calls.db ≠ none → calls.connect.Clean ∧ (calls.connect.opening = .ok → calls.localdb.Clean)

def InitCalls.Succeeds (calls : InitCalls) : Prop :=
  calls.db ≠ none ∧ calls.connect.opening = .ok ∧ calls.localdb.Succeeds

def CallbackCalls.Clean (calls : CallbackCalls) : Request → Prop
  | .getNodes nodes =>
    calls.db ≠ none → calls.connect.Clean ∧ (calls.connect.opening = .ok → nodes ≠ none)
  | .addNode _ => calls.db ≠ none → calls.connect.Clean
  | .other => True

/-- The indeterminate handles of a server that is given up happen to be NULL. -/
def ServerCalls.Clean (calls : ServerCalls) : Prop :=
  calls.memalloc → calls.init.Clean ∧ (calls.init.Succeeds → ∀ isSet ∈ calls.ledger,
    (calls.localDb = none → isSet = false) ∧ ∀ isSet' ∈ calls.localDb,
      (calls.gateway = none → isSet = false ∧ isSet' = false) ∧
      (calls.gateway = some true → calls.http ≠ some false → calls.connectLedger.opening = .ok →
        calls.connectLocal.Clean))

def Owner.Clean : Owner → Prop
  | .server calls => calls.Clean
  | .callback calls request => calls.Clean request
  | .localdb calls => calls.Clean
  | .init calls => calls.Clean

def failure (d : Nat) (opening : Opening) : List Event := .opened d :: goodbye d opening.handle

def Event.opens : Event → Option Nat
  | .opened d => some d
  | _ => none

def Balanced (p : Nat → Prop) (log : List Event) : Prop :=
  ∀ e ∈ log, e.Own ∧ ∀ d ∈ e.opens, p (log.count (.disconnected d))

instance : (e : Event) → Decidable e.Own
  | .opened _ => isTrue trivial
  | .disconnected _ => isTrue trivial
  | .closed _ handle => inferInstanceAs (Decidable (handle = .opened))

instance (p : Nat → Prop) [DecidablePred p] (log : List Event) : Decidable (Balanced p log) :=
  inferInstanceAs (Decidable (∀ e ∈ log, _))

section Settled

variable {α : Type}

theorem balanced_iff : Balanced p log ↔
    (∀ d, .opened d ∈ log → p (log.count (.disconnected d))) ∧ ∀ e ∈ log, e.Own := by
  constructor
  · intro h
    exact ⟨fun d hd => (h _ hd).2 d rfl, fun e he => (h e he).1⟩
  · rintro ⟨honce, hown⟩ e he
    refine ⟨hown e he, fun d hd => honce d ?_⟩
    cases e with
    | opened d' => exact Option.some.inj hd ▸ he
    | disconnected d' => cases hd
    | closed d' handle => cases hd

theorem settled_ok_iff (a : α) (dbs : List Database) (log : List Event) :
    Settled (.ok a ⟨dbs, log⟩) ↔ Balanced (· = 1) log :=
  (balanced_iff (p := (· = 1))).symm

theorem settled_exit_iff (dbs : List Database) (log : List Event) :
    Settled (.error .exit ⟨dbs, log⟩ : EStateM.Result Stop World α) ↔ Balanced (· ≤ 1) log :=
  (balanced_iff (p := (· ≤ 1))).symm

theorem settled_none (a : α) : Settled (.ok a ⟨[], []⟩) := (settled_ok_iff a [] []).mpr (by decide)

theorem settled_life (a : α) (dbs : List Database) : Settled (.ok a ⟨dbs, life 0⟩) :=
  (settled_ok_iff a dbs _).mpr (by decide)

theorem settled_lives (a : α) (dbs : List Database) : Settled (.ok a ⟨dbs, life 0 ++ life 1⟩) :=
  (settled_ok_iff a dbs _).mpr (by decide)

theorem settled_failure (opening : Opening) (dbs : List Database) :
    Settled (.error .exit ⟨dbs, failure 0 opening⟩ : EStateM.Result Stop World α) := by
  have h : ∀ opening, Balanced (· ≤ 1) (failure 0 opening) := by intro opening; cases opening <;> decide
  exact (settled_exit_iff dbs _).mpr (h opening)

theorem settled_life_failure (opening : Opening) (dbs : List Database) :
    Settled (.error .exit ⟨dbs, life 0 ++ failure 1 opening⟩ : EStateM.Result Stop World α) := by
  have h : ∀ opening, Balanced (· ≤ 1) (life 0 ++ failure 1 opening) := by
    intro opening
    cases opening <;> decide
  exact (settled_exit_iff dbs _).mpr (h opening)

end Settled

-- ---------------------------------------------------------------------------
-- The functions that connect to nodes
-- ---------------------------------------------------------------------------

theorem settled_opening {x : M α} {rest : Nat → M α} (db : Option Bool) (calls : Connect)
    (hnone : Settled (x.run ⟨dbs, log⟩))
    (hfailure : ∀ dbs' opening, Settled (.error .exit ⟨dbs', log ++ failure dbs.length opening⟩ :
      EStateM.Result Stop World α)) :
    Settled ((opening db calls x rest).run ⟨dbs, log⟩) ↔
      (db ≠ none → calls.Clean ∧ (calls.opening = .ok → Settled ((rest dbs.length).run
        ⟨dbs ++ [⟨false, .opened, false⟩], log ++ [Event.opened dbs.length]⟩))) := by
  cases db with
  | none => exact iff_of_true hnone fun h => absurd rfl h
  | some isSet =>
    simp only [ne_eq, reduceCtorEq, not_false_eq_true, forall_const]
    by_cases hopening : calls.opening = .ok
    · by_cases hinits : calls.Inits
      · rw [run_opening isSet hopening hinits]
        simp [Connect.Clean, hopening, hinits]
      · obtain ⟨w, hfault⟩ := run_opening_error dbs log isSet hopening hinits
        rw [hfault]
        exact iff_of_false id fun h => hinits (h.1 hopening)
    · obtain ⟨dbs', hexit⟩ := run_opening_exit dbs log isSet hopening
      rw [hexit]
      exact iff_of_true (hfailure _ _) ⟨fun h => absurd h hopening, fun h => absurd h hopening⟩

theorem settled_localdb (calls : LocaldbCalls) :
    Settled ((connectLocaldbNodeServers calls).run ⟨[], []⟩) ↔ calls.Clean := by
  have hnone : Settled ((pure false : M Bool).run ⟨[], []⟩) := settled_none false
  have hrun := run_readNodes [] [] calls.nodes
  rw [connectLocaldbNodeServers_eq, settled_opening _ _ hnone fun _ _ => settled_failure _ _, hrun]
  exact forall_congr' fun _ => and_iff_left fun _ => settled_life _ _

theorem settled_localdb_second (calls : LocaldbCalls) (db : Database) :
    Settled ((connectLocaldbNodeServers calls).run ⟨[db], life 0⟩) ↔ calls.Clean := by
  have hnone : Settled ((pure false : M Bool).run ⟨[db], life 0⟩) := settled_life false [db]
  have hrun := run_readNodes [db] (life 0) calls.nodes
  rw [connectLocaldbNodeServers_eq, settled_opening _ _ hnone fun _ _ => settled_life_failure _ _, hrun]
  exact forall_congr' fun _ => and_iff_left fun _ => settled_lives _ _

theorem settled_init (calls : InitCalls) :
    Settled ((connectInitNodeServers calls).run ⟨[], []⟩) ↔ calls.Clean := by
  have hnone : Settled ((pure false : M Bool).run ⟨[], []⟩) := settled_none false
  have hend := run_dbDisconnect_last [] []
  rw [connectInitNodeServers_eq, settled_opening _ _ hnone fun _ _ => settled_failure _ _]
  refine forall_congr' fun _ => and_congr_right fun _ => forall_congr' fun _ => ?_
  rw [run_bind_ok (run_exchanges (connected_last []) _), run_bind_ok hend]
  exact settled_localdb_second calls.localdb _

-- ---------------------------------------------------------------------------
-- The callback
-- ---------------------------------------------------------------------------

theorem settled_callback (calls : CallbackCalls) (request : Request) :
    Settled ((nodeServerCallback calls request).run ⟨[], []⟩) ↔ calls.Clean request := by
  have hnone : Settled ((pure () : M Unit).run ⟨[], []⟩) := settled_none ()
  have hend := run_dbDisconnect_last [] []
  cases request with
  | other => exact iff_of_true (settled_none ()) trivial
  | addNode n =>
    have heq : nodeServerCallback calls (.addNode n) =
        opening calls.db calls.connect (pure ()) (fun d => do
          queries d n
          dbDisconnect (some d)) := rfl
    rw [heq, settled_opening _ _ hnone fun _ _ => settled_failure _ _]
    refine forall_congr' fun _ => and_iff_left fun _ => ?_
    rw [run_bind_ok (run_queries (connected_last []) n), hend]
    exact settled_life _ _
  | getNodes nodes =>
    have heq : nodeServerCallback calls (.getNodes nodes) =
        opening calls.db calls.connect (pure ()) (fun d => do
          query d
          match nodes with
          | none => return
          | some _ => dbDisconnect (some d)) := rfl
    rw [heq, settled_opening _ _ hnone fun _ _ => settled_failure _ _]
    refine forall_congr' fun _ => and_congr_right fun _ => forall_congr' fun _ => ?_
    rw [run_bind_ok (run_query (connected_last []))]
    cases nodes with
    | none =>
      refine iff_of_false (fun h => ?_) fun h => absurd rfl h
      exact absurd (h.1 0 (by simp)) (by simp)
    | some n =>
      dsimp only
      rw [hend]
      exact iff_of_true (settled_life _ _) (by simp)

-- ---------------------------------------------------------------------------
-- The server
-- ---------------------------------------------------------------------------

theorem run_opening_of_ok {isSet : Option Bool} {x : M α} {rest : Nat → M α}
    (h : (opening isSet calls x rest).run ⟨dbs, log⟩ = .ok a w) :
    x.run ⟨dbs, log⟩ = .ok a w ∨ isSet ≠ none ∧ calls.opening = .ok ∧
      (rest dbs.length).run ⟨dbs ++ [⟨false, .opened, false⟩], log ++ [Event.opened dbs.length]⟩ = .ok a w := by
  cases isSet with
  | none => exact .inl h
  | some isSet =>
    by_cases hopening : calls.opening = .ok
    · by_cases hinits : calls.Inits
      · rw [run_opening isSet hopening hinits] at h
        exact .inr ⟨by simp, hopening, h⟩
      · obtain ⟨w', hfault⟩ := run_opening_error dbs log isSet hopening hinits
        rw [hfault] at h
        contradiction
    · obtain ⟨dbs', hexit⟩ := run_opening_exit dbs log isSet hopening
      rw [hexit] at h
      contradiction

theorem run_localdb_true {calls : LocaldbCalls}
    (h : (connectLocaldbNodeServers calls).run ⟨dbs, log⟩ = .ok true w) :
    calls.Succeeds ∧ w = ⟨dbs ++ [⟨false, .opened, true⟩], log ++ life dbs.length⟩ := by
  rw [connectLocaldbNodeServers_eq] at h
  rcases run_opening_of_ok h with hnone | ⟨hdb, hopening, hrest⟩
  · cases hnone
  · rw [run_readNodes] at hrest
    injection hrest with hnodes hw
    exact ⟨⟨hdb, hopening, Option.isSome_iff_ne_none.mp hnodes⟩, hw.symm⟩

theorem run_init_true {calls : InitCalls} (h : (connectInitNodeServers calls).run ⟨[], []⟩ = .ok true w) :
    calls.Succeeds ∧ ∃ db db', w = ⟨[db, db'], life 0 ++ life 1⟩ := by
  have hend := run_dbDisconnect_last [] []
  rw [connectInitNodeServers_eq] at h
  rcases run_opening_of_ok h with hnone | ⟨hdb, hopening, hrest⟩
  · cases hnone
  · rw [run_bind_ok (run_exchanges (connected_last []) _), run_bind_ok hend] at hrest
    obtain ⟨hlocaldb, hw⟩ := run_localdb_true hrest
    exact ⟨⟨hdb, hopening, hlocaldb⟩, _, _, hw⟩

theorem run_localdb {calls : LocaldbCalls} (h : calls.Succeeds) (hclean : calls.Clean) :
    (connectLocaldbNodeServers calls).run ⟨dbs, log⟩ =
      .ok true ⟨dbs ++ [⟨false, .opened, true⟩], log ++ life dbs.length⟩ := by
  obtain ⟨hdb, hopening, hnodes⟩ := h
  have hinits : calls.connect.Inits := hclean hdb hopening
  obtain ⟨isSet, hdb⟩ := Option.ne_none_iff_exists'.mp hdb
  obtain ⟨nodes, hnodes⟩ := Option.ne_none_iff_exists'.mp hnodes
  rw [connectLocaldbNodeServers_eq, hdb, run_opening isSet hopening hinits, run_readNodes, hnodes]
  rfl

theorem run_init {calls : InitCalls} (h : calls.Succeeds) (hclean : calls.Clean) :
    ∃ w, (connectInitNodeServers calls).run ⟨[], []⟩ = .ok true w := by
  obtain ⟨hdb, hopening, hlocaldb⟩ := h
  obtain ⟨hinits, hclean'⟩ := hclean hdb
  obtain ⟨isSet, hdb⟩ := Option.ne_none_iff_exists'.mp hdb
  exact ⟨_, (run_connectInitNodeServers isSet hdb hopening (hinits hopening)).trans
    (run_localdb hlocaldb (hclean' hopening))⟩

theorem not_succeeds {calls : InitCalls} (hclean : calls.Clean)
    (h : ∀ w, (connectInitNodeServers calls).run ⟨[], []⟩ ≠ .ok true w) : ¬ calls.Succeeds := by
  intro hsucceeds
  obtain ⟨w, hrun⟩ := run_init hsucceeds hclean
  exact h w hrun

def openServer (calls : ServerCalls) : M (Option GeoNSServer) := do
  match ← dbOpen calls.ledger true with
  | none =>
    killGeonsServer ⟨none, none⟩
    return none
  | some ledger =>
    match ← dbOpen calls.localDb false with
    | none =>
      killGeonsServer ⟨some ledger, none⟩
      return none
    | some localDb =>
      let server : GeoNSServer := ⟨some ledger, some localDb⟩
      match calls.gateway with
      | none =>
        killGeonsServer server
        return none
      | some started =>
        startThread started
        match calls.http with
        | none => pure ()
        | some started => startThread started
        dbConnect calls.connectLedger ledger
        dbConnect calls.connectLocal localDb
        return some server

theorem createGeonsServer_eq (calls : ServerCalls) (h : calls.memalloc) :
    createGeonsServer calls = (connectInitNodeServers calls.init >>= fun connected =>
      if !connected then (do
        killGeonsServer ⟨none, none⟩
        return none)
      else openServer calls) := by
  rw [createGeonsServer, h]
  rfl

def serve (calls : ServerCalls) : M Unit := do
  match ← openServer calls with
  | none => return
  | some server => killGeonsServer server

def greeted : List Event := life 0 ++ life 1

section Server

variable {a b ledger localDb : Database}

theorem run_killGeonsServer (log : List Event) (hledger : ledger.freed = false) (hlocal : localDb.freed = false) :
    ∃ dbs, (killGeonsServer ⟨some 2, some 3⟩).run ⟨[a, b, ledger, localDb], log⟩ =
      .ok () ⟨dbs, log ++ (goodbye 2 ledger.handle ++ goodbye 3 localDb.handle)⟩ := by
  have hfirst : [a, b, ledger, localDb][2]? = some ledger := rfl
  have hsecond : [a, b, { ledger with freed := true }, localDb][3]? = some localDb := rfl
  refine ⟨[a, b, { ledger with freed := true }, { localDb with freed := true }], ?_⟩
  rw [killGeonsServer, run_bind_ok (run_dbDisconnect hfirst hledger), ← List.append_assoc]
  exact run_dbDisconnect hsecond hlocal

theorem run_killGeonsServer_ledger (log : List Event) (hledger : ledger.freed = false) :
    ∃ dbs, (killGeonsServer ⟨some 2, none⟩).run ⟨[a, b, ledger], log⟩ =
      .ok () ⟨dbs, log ++ goodbye 2 ledger.handle⟩ := by
  have hfirst : [a, b, ledger][2]? = some ledger := rfl
  refine ⟨[a, b, { ledger with freed := true }], ?_⟩
  rw [killGeonsServer, run_bind_ok (run_dbDisconnect hfirst hledger)]
  rfl

theorem settled_ledger (isSet : Bool) (dbs : List Database) :
    Settled (.ok () ⟨dbs, greeted ++ Event.opened 2 :: goodbye 2 (.indeterminate isSet)⟩) ↔ isSet = false := by
  rw [settled_ok_iff]
  cases isSet <;> decide

/-- The log of a server that is given up, or killed, with its two databases. -/
def ended (handle handle' : Handle) : List Event :=
  greeted ++ Event.opened 2 :: .opened 3 :: (goodbye 2 handle ++ goodbye 3 handle')

theorem settled_indeterminate (isSet isSet' : Bool) (dbs : List Database) :
    Settled (.ok () ⟨dbs, ended (.indeterminate isSet) (.indeterminate isSet')⟩) ↔
      isSet = false ∧ isSet' = false := by
  rw [settled_ok_iff]
  cases isSet <;> cases isSet' <;> decide

theorem settled_opened (dbs : List Database) : Settled (.ok () ⟨dbs, ended .opened .opened⟩) :=
  (settled_ok_iff () dbs _).mpr (by decide)

theorem settled_unconnected (dbs : List Database) :
    Settled (.error .exit ⟨dbs, greeted ++ [Event.opened 2, .opened 3]⟩ : EStateM.Result Stop World Unit) :=
  (settled_exit_iff dbs _).mpr (by decide)

theorem settled_connecting (hd : d = 2 ∨ d = 3) (opening : Opening) (dbs : List Database) :
    Settled (.error .exit ⟨dbs, greeted ++ Event.opened 2 :: .opened 3 :: goodbye d opening.handle⟩ :
      EStateM.Result Stop World Unit) := by
  rw [settled_exit_iff]
  rcases hd with rfl | rfl
  · cases opening <;> decide
  · cases opening <;> decide

theorem settled_listening (calls : ServerCalls) (isSet isSet' : Bool) :
    Settled ((do
        dbConnect calls.connectLedger 2
        dbConnect calls.connectLocal 3
        killGeonsServer ⟨some 2, some 3⟩ : M Unit).run
      ⟨[a, b, ⟨true, .indeterminate isSet, false⟩, ⟨false, .indeterminate isSet', false⟩],
        greeted ++ [Event.opened 2, .opened 3]⟩) ↔
      (calls.connectLedger.opening = .ok → calls.connectLocal.Clean) := by
  have hledger : [a, b, ⟨true, .indeterminate isSet, false⟩, ⟨false, .indeterminate isSet', false⟩][2]? =
      some ⟨true, .indeterminate isSet, false⟩ := rfl
  have hlocal : [a, b, ⟨true, .opened, false⟩, ⟨false, .indeterminate isSet', false⟩][3]? =
      some ⟨false, .indeterminate isSet', false⟩ := rfl
  by_cases hopening : calls.connectLedger.opening = .ok
  · have hfirst : (dbConnect calls.connectLedger 2).run
          ⟨[a, b, ⟨true, .indeterminate isSet, false⟩, ⟨false, .indeterminate isSet', false⟩],
            greeted ++ [Event.opened 2, .opened 3]⟩ =
        .ok () ⟨[a, b, ⟨true, .opened, false⟩, ⟨false, .indeterminate isSet', false⟩],
          greeted ++ [Event.opened 2, .opened 3]⟩ := run_dbConnect_ledger hledger hopening
    rw [run_bind_ok hfirst]
    by_cases hopening' : calls.connectLocal.opening = .ok
    · by_cases hinits : calls.connectLocal.Inits
      · have hsecond : (dbConnect calls.connectLocal 3).run
              ⟨[a, b, ⟨true, .opened, false⟩, ⟨false, .indeterminate isSet', false⟩],
                greeted ++ [Event.opened 2, .opened 3]⟩ =
            .ok () ⟨[a, b, ⟨true, .opened, false⟩, ⟨false, .opened, false⟩],
              greeted ++ [Event.opened 2, .opened 3]⟩ := run_dbConnect hlocal hopening' hinits
        obtain ⟨dbs, hkill⟩ := run_killGeonsServer (a := a) (b := b)
          (greeted ++ [Event.opened 2, .opened 3]) (rfl : (⟨true, .opened, false⟩ : Database).freed = false)
          (rfl : (⟨false, .opened, false⟩ : Database).freed = false)
        rw [run_bind_ok hsecond, hkill, List.append_assoc]
        exact iff_of_true (settled_opened dbs) fun _ _ => hinits
      · obtain ⟨w, hfault⟩ := run_dbConnect_error (greeted ++ [Event.opened 2, .opened 3]) hlocal
          hopening' hinits
        rw [run_bind_error hfault]
        exact iff_of_false id fun h => hinits (h hopening hopening')
    · obtain ⟨dbs, hexit⟩ := run_dbConnect_exit (greeted ++ [Event.opened 2, .opened 3]) hlocal
        hopening'
      rw [run_bind_error hexit, List.append_assoc]
      exact iff_of_true (settled_connecting (.inr rfl) _ _) fun _ h => absurd h hopening'
  · obtain ⟨dbs, hexit⟩ := run_dbConnect_exit (greeted ++ [Event.opened 2, .opened 3]) hledger hopening
    rw [run_bind_error hexit, List.append_assoc]
    exact iff_of_true (settled_connecting (.inl rfl) _ _) fun h => absurd h hopening

theorem run_openServer_ledger {calls : ServerCalls} (hledger : calls.ledger = some isSet)
    (hlocal : calls.localDb = none) :
    ∃ dbs, (openServer calls).run ⟨[a, b], greeted⟩ =
      .ok none ⟨dbs, greeted ++ Event.opened 2 :: goodbye 2 (.indeterminate isSet)⟩ := by
  have hopened : (dbOpen (some isSet) true).run ⟨[a, b], greeted⟩ =
      .ok (some 2) ⟨[a, b, ⟨true, .indeterminate isSet, false⟩], greeted ++ [Event.opened 2]⟩ := rfl
  obtain ⟨dbs, hkill⟩ := run_killGeonsServer_ledger (a := a) (b := b) (greeted ++ [Event.opened 2])
    (rfl : (⟨true, .indeterminate isSet, false⟩ : Database).freed = false)
  rw [List.append_assoc] at hkill
  refine ⟨dbs, ?_⟩
  rw [openServer, hledger, hlocal, run_bind_ok hopened]
  exact run_bind_ok hkill

theorem run_openServer {calls : ServerCalls} (hledger : calls.ledger = some isSet)
    (hlocal : calls.localDb = some isSet') :
    (openServer calls).run ⟨[a, b], greeted⟩ = (match calls.gateway with
      | none => do
        killGeonsServer ⟨some 2, some 3⟩
        return none
      | some started => do
        startThread started
        match calls.http with
        | none => pure ()
        | some started => startThread started
        dbConnect calls.connectLedger 2
        dbConnect calls.connectLocal 3
        return some ⟨some 2, some 3⟩ : M (Option GeoNSServer)).run
      ⟨[a, b, ⟨true, .indeterminate isSet, false⟩, ⟨false, .indeterminate isSet', false⟩],
        greeted ++ [Event.opened 2, .opened 3]⟩ := by
  have hopened : (dbOpen (some isSet) true).run ⟨[a, b], greeted⟩ =
      .ok (some 2) ⟨[a, b, ⟨true, .indeterminate isSet, false⟩], greeted ++ [Event.opened 2]⟩ := rfl
  have hopened' : (dbOpen (some isSet') false).run
        ⟨[a, b, ⟨true, .indeterminate isSet, false⟩], greeted ++ [Event.opened 2]⟩ =
      .ok (some 3) ⟨[a, b, ⟨true, .indeterminate isSet, false⟩, ⟨false, .indeterminate isSet', false⟩],
        greeted ++ [Event.opened 2, .opened 3]⟩ := rfl
  rw [openServer, hledger, hlocal, run_bind_ok hopened]
  exact run_bind_ok hopened'

theorem settled_serve (calls : ServerCalls) :
    Settled ((serve calls).run ⟨[a, b], greeted⟩) ↔ ∀ isSet ∈ calls.ledger,
      (calls.localDb = none → isSet = false) ∧ ∀ isSet' ∈ calls.localDb,
        (calls.gateway = none → isSet = false ∧ isSet' = false) ∧
        (calls.gateway = some true → calls.http ≠ some false → calls.connectLedger.opening = .ok →
          calls.connectLocal.Clean) := by
  have hgreeted : Settled (.ok () ⟨[a, b], greeted⟩) := settled_lives () [a, b]
  cases hledger : calls.ledger with
  | none =>
    unfold serve openServer
    rw [hledger]
    exact iff_of_true hgreeted (by simp)
  | some isSet =>
    cases hlocal : calls.localDb with
    | none =>
      obtain ⟨dbs, hopen⟩ := run_openServer_ledger (a := a) (b := b) hledger hlocal
      rw [serve, run_bind_ok hopen]
      simpa using settled_ledger isSet dbs
    | some isSet' =>
      have hopen := run_openServer (a := a) (b := b) hledger hlocal
      cases hgateway : calls.gateway with
      | none =>
        obtain ⟨dbs, hkill⟩ := run_killGeonsServer (a := a) (b := b)
          (greeted ++ [Event.opened 2, .opened 3])
          (rfl : (⟨true, .indeterminate isSet, false⟩ : Database).freed = false)
          (rfl : (⟨false, .indeterminate isSet', false⟩ : Database).freed = false)
        rw [hgateway] at hopen
        rw [List.append_assoc] at hkill
        rw [serve, run_bind_ok (hopen.trans (run_bind_ok hkill))]
        simpa [ended] using settled_indeterminate isSet isSet' dbs
      | some started =>
        rw [hgateway] at hopen
        cases started with
        | false =>
          rw [serve, run_bind_error (hopen.trans (run_bind_error rfl))]
          exact iff_of_true (settled_unconnected _) (by simp)
        | true =>
          simp only [Option.mem_some_iff, forall_eq', reduceCtorEq, false_implies, true_and, forall_const]
          by_cases hhttp : calls.http = some false
          · rw [hhttp] at hopen
            have hexit := hopen.trans ((run_bind_ok rfl).trans (run_bind_error rfl))
            rw [serve, run_bind_error hexit]
            exact iff_of_true (settled_unconnected _) fun h => absurd hhttp h
          · have hstarted : (openServer calls).run ⟨[a, b], greeted⟩ = (do
                  dbConnect calls.connectLedger 2
                  dbConnect calls.connectLocal 3
                  return some ⟨some 2, some 3⟩ : M (Option GeoNSServer)).run
                ⟨[a, b, ⟨true, .indeterminate isSet, false⟩, ⟨false, .indeterminate isSet', false⟩],
                  greeted ++ [Event.opened 2, .opened 3]⟩ := by
              rw [hopen]
              cases hserver : calls.http with
              | none => rfl
              | some started =>
                cases started with
                | true => rfl
                | false => exact absurd hserver hhttp
            rw [serve, EStateM.run_bind, hstarted, ← EStateM.run_bind, bind_assoc]
            simp only [bind_assoc, pure_bind]
            simpa [hhttp] using settled_listening calls isSet isSet'

end Server

theorem settled_error (e : Stop) (w : World) :
    Settled (.error e w : EStateM.Result Stop World Unit) ↔
      Settled (.error e w : EStateM.Result Stop World Bool) := by
  cases e <;> exact Iff.rfl

theorem run_geonsServer_error {calls : ServerCalls} (h : calls.memalloc)
    (hinit : (connectInitNodeServers calls.init).run ⟨[], []⟩ = .error e w) :
    (geonsServer calls).run ⟨[], []⟩ = .error e w := by
  rw [geonsServer, createGeonsServer_eq calls h]
  exact run_bind_error (run_bind_error hinit)

theorem run_geonsServer_false {calls : ServerCalls} (h : calls.memalloc)
    (hinit : (connectInitNodeServers calls.init).run ⟨[], []⟩ = .ok false w) :
    (geonsServer calls).run ⟨[], []⟩ = .ok () w := by
  have hcreate : (createGeonsServer calls).run ⟨[], []⟩ = .ok none w := by
    rw [createGeonsServer_eq calls h, run_bind_ok hinit]
    rfl
  exact run_bind_ok hcreate

theorem run_geonsServer_true {calls : ServerCalls} (h : calls.memalloc)
    (hinit : (connectInitNodeServers calls.init).run ⟨[], []⟩ = .ok true w) :
    (geonsServer calls).run ⟨[], []⟩ = (serve calls).run w := by
  rw [geonsServer, createGeonsServer_eq calls h, EStateM.run_bind, run_bind_ok hinit]
  exact (EStateM.run_bind ..).symm

theorem settled_server (calls : ServerCalls) :
    Settled ((geonsServer calls).run ⟨[], []⟩) ↔ calls.Clean := by
  rw [ServerCalls.Clean]
  cases hmemalloc : calls.memalloc with
  | false =>
    have hrun : (geonsServer calls).run ⟨[], []⟩ = .ok () ⟨[], []⟩ := by
      rw [geonsServer, createGeonsServer, hmemalloc]
      rfl
    rw [hrun]
    exact iff_of_true (settled_none ()) (by simp)
  | true =>
    simp only [forall_const]
    have hsettled := settled_init calls.init
    cases hinit : (connectInitNodeServers calls.init).run ⟨[], []⟩ with
    | error e w =>
      have hfails (hclean : calls.init.Clean) : ¬ calls.init.Succeeds :=
        not_succeeds hclean fun _ => by simp [hinit]
      rw [hinit] at hsettled
      rw [run_geonsServer_error hmemalloc hinit, settled_error, hsettled]
      exact ⟨fun h => ⟨h, fun hsucceeds => absurd hsucceeds (hfails h)⟩, fun h => h.1⟩
    | ok connected w =>
      rw [hinit] at hsettled
      cases connected with
      | false =>
        have hfails (hclean : calls.init.Clean) : ¬ calls.init.Succeeds :=
          not_succeeds hclean fun _ => by simp [hinit]
        rw [run_geonsServer_false hmemalloc hinit]
        refine hsettled.trans ?_
        exact ⟨fun h => ⟨h, fun hsucceeds => absurd hsucceeds (hfails h)⟩, fun h => h.1⟩
      | true =>
        obtain ⟨hsucceeds, a, b, rfl⟩ := run_init_true hinit
        have hclean := hsettled.mp (settled_lives true [a, b])
        rw [run_geonsServer_true hmemalloc hinit]
        refine (settled_serve calls).trans ?_
        exact ⟨fun h => ⟨hclean, fun _ => h⟩, fun h => h.2 hsucceeds⟩

/-- Each owner settles its databases exactly for these outcomes of its calls. -/
theorem settles_iff (o : Owner) : o.Settles ↔ o.Clean := by
  cases o with
  | server calls => exact settled_server calls
  | callback calls request => exact settled_callback calls request
  | localdb calls => exact settled_localdb calls
  | init calls => exact settled_init calls

-- ---------------------------------------------------------------------------
-- Samples
-- ---------------------------------------------------------------------------

def configured : Connect := ⟨.ok, .row true, .row true⟩

def unreadNodes : Owner := .callback ⟨some true, configured⟩ (.getNodes none)

/-- The gateway's port is taken, with both databases opened and none connected. -/
def takenPort : Owner :=
  .server ⟨true, ⟨some true, configured, [], ⟨some true, configured, some []⟩⟩, some true, some true,
    none, none, configured, configured⟩

theorem not_settles_unreadNodes : ¬ unreadNodes.Settles ∧ ¬ takenPort.Settles := by
  constructor
  · rintro ⟨honce, -⟩
    exact absurd (honce 0 (by decide)) (by decide)
  · rintro ⟨-, hown⟩
    exact absurd (hown (.closed 2 (.indeterminate true)) (by decide)) (by simp [Event.Own])

end GeoNS.Db.Handles
