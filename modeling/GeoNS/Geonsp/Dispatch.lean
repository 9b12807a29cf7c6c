import GeoNS.Geonsp.Answers
import GeoNS.Parson.Locality

/-!
# Which operation a text asks for

The handler compares the method with the beginning of each name in turn, and
looks at the value at the head of the text only. What a text asks for is what
all of it says.
-/

namespace GeoNS.Geonsp.Dispatch

open CString Parson

inductive Operation
  | getVersion
  | getNodes
  | addNode
  deriving DecidableEq, Repr

def Operation.name : Operation → Bytes
  | .getVersion => geonspMsgGetVersion
  | .getNodes => geonspMsgGetNodes
  | .addNode => geonspMsgAddNode

def Operation.perform (host : Host) (io : DbIo) (clientAddr buffer : Bytes) (db : Db.Database) :
    Operation → Outcome
  | .getVersion => .done 0 (serverProtoResponse true host.version) db
  | .getNodes => handleGetNodes host io db
  | .addNode => handleAddNode host io clientAddr (valueGetObject (jsonParseString buffer)) db

/-- All of the text, up to white space, is one object whose method is the name of
the operation. -/
def Asks (buffer : Bytes) (op : Operation) : Prop :=
  ∃ members left, jsonParse buffer = some (.object members, left) ∧ (∀ c ∈ left, isspace c) ∧
    objectGetValue (some members) (bytes "method") = some (.string op.name)

def Performs (buffer : Bytes) (op : Operation) : Prop :=
  ∀ host io clientAddr db,
    nodeServerCallback host io clientAddr buffer db = op.perform host io clientAddr buffer db

def Failed (response : Bytes) : Prop :=
  ∃ object, Readable response object ∧
    objectGetString (some object) (bytes "status") = some (bytes "failed")

/-- The result is -1, whatever the database is like and would do. -/
def Refuses (buffer : Bytes) : Prop :=
  ∃ response, Failed response ∧ ∀ host io clientAddr db,
    nodeServerCallback host io clientAddr buffer db = .done (-1) response db

/-- Each operation is performed for the texts that ask for it, and all others are
refused. -/
structure Exact (buffer : Bytes) : Prop where
  performs : ∀ op, Performs buffer op ↔ Asks buffer op
  refuses : (∀ op, ¬ Asks buffer op) → Refuses buffer

/-- Nothing but white space is left. -/
def Whole (buffer : Bytes) : Prop :=
  ∃ v left, jsonParse buffer = some (v, left) ∧ ∀ c ∈ left, isspace c

/-- The method, where there is one, is a string, and it begins with the name of an
operation only where the text asks for that. -/
structure Precise (buffer : Bytes) : Prop where
  typed : MethodIsString buffer
  named : ∀ (op : Operation) (chars : Bytes), requestValue buffer (bytes "method") = some (.string chars) →
    op.name <+: chars → chars = op.name ∧ Whole buffer

-- ---------------------------------------------------------------------------
-- The names
-- ---------------------------------------------------------------------------

theorem zero_notMem_name (op : Operation) : (0 : UInt8) ∉ op.name := by
  cases op <;> decide

theorem startsWith_iff : startsWith s name ↔ name <+: s := List.isPrefixOf_iff_prefix

theorem prefix_cstr_iff (op : Operation) (chars : Bytes) : op.name <+: cstr chars ↔ op.name <+: chars := by
  constructor
  · intro h
    exact h.trans (List.takeWhile_prefix _)
  · rintro ⟨rest, rfl⟩
    rw [cstr_append_of_notMem (zero_notMem_name op)]
    exact List.prefix_append op.name _

theorem eq_of_prefix {op op' : Operation} (h : op.name <+: method) (h' : op'.name <+: method) :
    op = op' := by
  have hnames : ∀ op op' : Operation, op.name <+: op'.name → op = op' := by
    intro op op'
    cases op <;> cases op' <;> decide
  rcases List.prefix_or_prefix_of_prefix h h' with hop | hop
  · exact hnames op op' hop
  · exact (hnames op' op hop).symm

theorem performs_of_prefix {op : Operation} (hmethod : methodOf buffer = some method)
    (hop : op.name <+: method) : Performs buffer op := by
  have hother : ∀ op', op' ≠ op → startsWith method op'.name = false := by
    intro op' hne
    refine Bool.eq_false_iff.mpr fun h => hne ?_
    exact eq_of_prefix (startsWith_iff.mp h) hop
  have hthis : startsWith method op.name = true := startsWith_iff.mpr hop
  intro host io clientAddr db
  rw [nodeServerCallback_method hmethod]
  cases op with
  | getVersion => exact if_pos hthis
  | getNodes =>
    have hversion := hother .getVersion (by decide)
    simp only [Operation.name] at hthis hversion
    simp only [hversion, hthis, Bool.false_eq_true, if_false, if_true]
    rfl
  | addNode =>
    have hversion := hother .getVersion (by decide)
    have hnodes := hother .getNodes (by decide)
    simp only [Operation.name] at hthis hversion hnodes
    simp only [hversion, hnodes, hthis, Bool.false_eq_true, if_false, if_true]
    rfl

-- ---------------------------------------------------------------------------
-- Refusals
-- ---------------------------------------------------------------------------

theorem failed_response (hmessage : isValidUtf8 message) :
    Failed (serverProtoResponse false message) := by
  have hkeys := responseObject_keys false hmessage
  refine ⟨responseObject false message,
    readable_payload (writable_responseObject false message) hkeys, ?_⟩
  have hstatus : isValidUtf8 (bytes "failed") := by decide
  unfold responseObject
  rw [objectGetString_setString _ _ _ _ hmessage, if_neg (by decide)]
  exact (objectGetString_setString _ _ _ _ hstatus).trans (by decide)

theorem refuses_of_missing (h : requestValue buffer (bytes "method") = none) : Refuses buffer :=
  ⟨_, failed_response (isValidUtf8_missingMessage buffer), nodeServerCallback_missing h⟩

theorem refuses_of_unnamed (hmethod : methodOf buffer = some method)
    (h : ∀ op : Operation, ¬ op.name <+: method) : Refuses buffer := by
  have hother : ∀ op : Operation, startsWith method op.name = false := fun op =>
    Bool.eq_false_iff.mpr fun hop => h op (startsWith_iff.mp hop)
  have hversion := hother .getVersion
  have hnodes := hother .getNodes
  have hadd := hother .addNode
  simp only [Operation.name] at hversion hnodes hadd
  refine ⟨serverProtoResponse false (bytes "GEONSP: Invalid protocol method."),
    failed_response (by decide), fun host io clientAddr db => ?_⟩
  rw [nodeServerCallback_method hmethod]
  simp only [hversion, hnodes, hadd, Bool.false_eq_true, if_false]

-- ---------------------------------------------------------------------------
-- One operation at most
-- ---------------------------------------------------------------------------

def Operation.ledgerResponse : Operation → Bytes
  | .getVersion => serverProtoResponse true sampleHost.version
  | .getNodes => serverProtoResponse false (bytes "Failed fetching nodes from database")
  | .addNode => addNodeResponse 0

theorem perform_ledger (op : Operation) (clientAddr buffer : Bytes) :
    op.perform sampleHost .ok clientAddr buffer ⟨true, []⟩ = .done 0 op.ledgerResponse ⟨true, []⟩ := by
  cases op <;> rfl

theorem Performs.eq {op op' : Operation} (h : Performs buffer op) (h' : Performs buffer op') : op = op' := by
  have hledger := (h sampleHost .ok [] ⟨true, []⟩).symm.trans (h' sampleHost .ok [] ⟨true, []⟩)
  rw [perform_ledger, perform_ledger] at hledger
  injection hledger with _ hresponse _
  have hresponses : ∀ op op' : Operation, op.ledgerResponse = op'.ledgerResponse → op = op' := by
    intro op op'
    cases op <;> cases op' <;> decide +kernel
  exact hresponses op op' hresponse

theorem Performs.not_refuses {op : Operation} (h : Performs buffer op) : ¬ Refuses buffer := by
  rintro ⟨response, -, hrefuses⟩
  have hledger := (h sampleHost .ok [] ⟨true, []⟩).symm.trans (hrefuses sampleHost .ok [] ⟨true, []⟩)
  rw [perform_ledger] at hledger
  injection hledger with hresult
  exact absurd hresult (by decide)

-- ---------------------------------------------------------------------------
-- Which texts are dispatched exactly
-- ---------------------------------------------------------------------------

theorem methodOf_string (h : requestValue buffer (bytes "method") = some (.string chars)) :
    methodOf buffer = some (cstr chars) := by
  rw [methodOf, h]
  rfl

theorem asks_iff {op : Operation} :
    Asks buffer op ↔
      Whole buffer ∧ requestValue buffer (bytes "method") = some (.string op.name) := by
  unfold requestValue
  rw [jsonParseString_eq]
  constructor
  · rintro ⟨members, left, hparsed, hleft, hmethod⟩
    refine ⟨⟨.object members, left, hparsed, hleft⟩, ?_⟩
    rw [hparsed]
    exact hmethod
  · rintro ⟨⟨v, left, hparsed, hleft⟩, hmethod⟩
    rw [hparsed, Option.map_some] at hmethod
    cases v with
    | object members => exact ⟨members, left, hparsed, hleft, hmethod⟩
    | _ => contradiction

theorem Asks.performs {op : Operation} (h : Asks buffer op) : Performs buffer op := by
  have hprefix : op.name <+: cstr op.name := (prefix_cstr_iff op op.name).mpr List.prefix_rfl
  exact performs_of_prefix (methodOf_string (asks_iff.mp h).2) hprefix

/-- A text either has the name of an operation at the head of its method, or is
refused. -/
theorem performs_or_refuses (h : MethodIsString buffer) :
    (∃ op : Operation, ∃ chars, requestValue buffer (bytes "method") = some (.string chars) ∧
      op.name <+: chars ∧ Performs buffer op) ∨ Refuses buffer := by
  cases hvalue : requestValue buffer (bytes "method") with
  | none => exact .inr (refuses_of_missing hvalue)
  | some v =>
    obtain ⟨chars, rfl⟩ := h v hvalue
    have hmethod := methodOf_string hvalue
    by_cases hnamed : ∃ op : Operation, op.name <+: chars
    · obtain ⟨op, hop⟩ := hnamed
      exact .inl ⟨op, chars, rfl, hop, performs_of_prefix hmethod ((prefix_cstr_iff op chars).mpr hop)⟩
    · refine .inr (refuses_of_unnamed hmethod fun op hop => hnamed ?_)
      exact ⟨op, (prefix_cstr_iff op chars).mp hop⟩

/-- The handler is exact for a text whose method, if it begins with a name, is that
name, and which then ends. -/
theorem exact_iff_precise (buffer : Bytes) : Exact buffer ↔ Precise buffer := by
  constructor
  · intro h
    refine ⟨?_, ?_⟩
    · intro v hvalue
      by_contra hstring
      have hfault := nodeServerCallback_untyped hvalue (fun chars hv => hstring ⟨chars, hv⟩)
        sampleHost .ok [] ⟨true, []⟩
      have hrefuses : Refuses buffer := by
        refine h.refuses fun op hasks => hstring ⟨op.name, ?_⟩
        exact Option.some.inj (hvalue.symm.trans (asks_iff.mp hasks).2)
      obtain ⟨response, -, hdone⟩ := hrefuses
      rw [hdone] at hfault
      contradiction
    · intro op chars hvalue hop
      have hperforms := performs_of_prefix (methodOf_string hvalue) ((prefix_cstr_iff op chars).mpr hop)
      obtain ⟨hwhole, hmethod⟩ := asks_iff.mp ((h.performs op).mp hperforms)
      have hsame := hvalue.symm.trans hmethod
      injection hsame with hsame
      injection hsame with hsame
      exact ⟨hsame, hwhole⟩
  · intro h
    have hasks : ∀ (op : Operation) (chars : Bytes),
        requestValue buffer (bytes "method") = some (.string chars) → op.name <+: chars →
        Asks buffer op := by
      intro op chars hvalue hop
      obtain ⟨rfl, hwhole⟩ := h.named op chars hvalue hop
      exact asks_iff.mpr ⟨hwhole, hvalue⟩
    refine ⟨fun op => ⟨fun hperforms => ?_, Asks.performs⟩, fun hnone => ?_⟩
    · rcases performs_or_refuses h.typed with ⟨op', chars, hvalue, hop, hperforms'⟩ | hrefuses
      · rw [hperforms.eq hperforms']
        exact hasks op' chars hvalue hop
      · exact absurd hrefuses hperforms.not_refuses
    · rcases performs_or_refuses h.typed with ⟨op, chars, hvalue, hop, -⟩ | hrefuses
      · exact absurd (hasks op chars hvalue hop) (hnone op)
      · exact hrefuses

def longerName : Bytes := bytes "\x7b\"method\":\"GET_VERSIONS\"\x7d"
def trailingBytes : Bytes := bytes "\x7b\"method\":\"GET_VERSION\"\x7d x"
def numberMethod : Bytes := bytes "\x7b\"method\":1\x7d"

/-- A longer name and trailing bytes get the version, and a number is a fault. -/
theorem not_exact_longerName :
    Performs longerName .getVersion ∧ ¬ Asks longerName .getVersion ∧ ¬ Exact longerName ∧
      Performs trailingBytes .getVersion ∧ ¬ Asks trailingBytes .getVersion ∧ ¬ Exact trailingBytes ∧
      nodeServerCallback sampleHost .ok (bytes "10.0.0.5") numberMethod ⟨false, []⟩ = .fault ∧
      ¬ Exact numberMethod := by
  have hlonger : methodOf longerName = some (bytes "GET_VERSIONS") := by decide +kernel
  have htrailing : methodOf trailingBytes = some geonspMsgGetVersion := by decide +kernel
  have hfault : nodeServerCallback sampleHost .ok (bytes "10.0.0.5") numberMethod ⟨false, []⟩ =
      .fault := by decide +kernel
  have hperforms : Performs longerName .getVersion := performs_of_prefix hlonger (by decide)
  have hperforms' : Performs trailingBytes .getVersion := performs_of_prefix htrailing (by decide)
  have hasks : ¬ Asks longerName .getVersion := by
    intro h
    have hmethod := hlonger.symm.trans (methodOf_string (asks_iff.mp h).2)
    exact absurd hmethod (by decide)
  have hasks' : ¬ Asks trailingBytes .getVersion := by
    rintro ⟨members, left, hparsed, hleft, -⟩
    have hrest : (jsonParse trailingBytes).map (·.2) = some (bytes " x") := by decide +kernel
    rw [hparsed, Option.map_some, Option.some.injEq] at hrest
    obtain rfl : left = bytes " x" := hrest
    have hx : isspace 120 := hleft 120 (by decide)
    exact absurd hx (by decide)
  refine ⟨hperforms, hasks, ?_, hperforms', hasks', ?_, hfault, ?_⟩
  · intro h
    exact hasks ((h.performs .getVersion).mp hperforms)
  · intro h
    exact hasks' ((h.performs .getVersion).mp hperforms')
  · intro h
    have hnone : methodOf numberMethod = none := by decide +kernel
    have hrefuses : Refuses numberMethod := by
      refine h.refuses fun op hasks => ?_
      exact nomatch hnone.symm.trans (methodOf_string (asks_iff.mp hasks).2)
    obtain ⟨response, -, hdone⟩ := hrefuses
    exact nomatch (hdone ..).symm.trans hfault

end GeoNS.Geonsp.Dispatch
