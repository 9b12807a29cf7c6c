import GeoNS.Parson.Laws
import GeoNS.Geonsp.Residue

/-!
# The handler answers

Whatever bytes are in the buffer and whatever the database calls do, a request
should get one response with a status and a message, and the result 0 or -1.
-/

namespace GeoNS.Geonsp

open CString Parson

/-- What the other side finds in a response. -/
structure Readable (response : Bytes) (object : Object) : Prop where
  parsed : jsonParseString response = some (.object object)
  status : (objectGetString (some object) (bytes "status")).isSome
  message : (objectGetString (some object) (bytes "message")).isSome

/-- The handler comes back, with 0 or -1, and has sent a response with the two
keys. -/
def Outcome.Answers : Outcome → Prop
  | .done result response _ => (result = 0 ∨ result = -1) ∧ ∃ object, Readable response object
  | .exit => False
  | .fault => False

def requestValue (buffer : Bytes) (name : Bytes) : Option Value :=
  objectGetValue (valueGetObject (jsonParseString buffer)) name

def MethodIsString (buffer : Bytes) : Prop :=
  ∀ v, requestValue buffer (bytes "method") = some v → ∃ chars, v = .string chars

def methodOf (buffer : Bytes) : Option Bytes :=
  valueGetString (requestValue buffer (bytes "method"))

theorem methodIsString_of_methodOf (h : methodOf buffer = some method) : MethodIsString buffer := by
  intro v hv
  rw [methodOf, hv] at h
  cases v with
  | string chars => exact ⟨chars, rfl⟩
  | _ => contradiction

/-- The request is one that the handler opens the database for. -/
def AsksDatabase (buffer : Bytes) : Prop :=
  ∃ method, methodOf buffer = some method ∧ startsWith method geonspMsgGetVersion = false ∧
    (startsWith method geonspMsgGetNodes ∨ startsWith method geonspMsgAddNode)

/-- `dbConnect`, where it is called, comes back with a database that is still
there. -/
def DbIo.Connects (io : DbIo) : Prop := io.opened → io.connected ∧ io.configured

-- ---------------------------------------------------------------------------
-- Responses
-- ---------------------------------------------------------------------------

theorem objectGetString_setString (members : Object) (name key s : Bytes) (hs : isValidUtf8 s) :
    objectGetString (some (objectSetString members name s)) key =
      if name = key then some (cstr s) else objectGetString (some members) key := by
  simp only [objectGetString, objectSetString, valueInitString, if_pos hs, objectGetValue_setValue]
  split <;> rfl

theorem writable_responseObject (isSuccess : Bool) (message : Bytes) :
    Writable 0 (.object (responseObject isSuccess message)) :=
  have hempty : Writable 0 (.object []) :=
    .object (by decide) (by simp) (by simp) (by simp)
  writable_setString (writable_setString hempty (by decide) (by decide) _) (by decide) (by decide) _

theorem responseObject_keys (isSuccess : Bool) (hmessage : isValidUtf8 message) :
    (objectGetString (some (responseObject isSuccess message)) (bytes "status")).isSome ∧
      (objectGetString (some (responseObject isSuccess message)) (bytes "message")).isSome := by
  have hstatus : isValidUtf8 (bytes (if isSuccess then "success" else "failed")) := by
    cases isSuccess <;> decide
  unfold responseObject
  rw [objectGetString_setString _ _ _ _ hmessage, objectGetString_setString _ _ _ _ hmessage,
    objectGetString_setString _ _ _ _ hstatus, if_neg (by decide), if_pos rfl, if_pos rfl]
  exact ⟨rfl, rfl⟩

theorem readable_payload (h : Writable 0 (.object object))
    (hkeys : (objectGetString (some object) (bytes "status")).isSome ∧
      (objectGetString (some object) (bytes "message")).isSome) :
    Readable (payload object) object where
  parsed := by
    have hparsed := jsonParseString_serialize h []
    rwa [List.append_nil] at hparsed
  status := hkeys.1
  message := hkeys.2

theorem readable_response (isSuccess : Bool) (hmessage : isValidUtf8 message) :
    ∃ object, Readable (serverProtoResponse isSuccess message) object :=
  ⟨_, readable_payload (writable_responseObject isSuccess message)
    (responseObject_keys isSuccess hmessage)⟩

theorem writable_nodeObject (node : Node) : Writable 2 (.object (nodeObject node)) := by
  have hempty : Writable 2 (.object []) :=
    .object (by decide) (by simp) (by simp) (by simp)
  have hserver : Writable 2 (.object (objectSetString [] (bytes "server") node.serverAddr)) :=
    writable_setString hempty (by decide) (by decide) _
  have hname : (0 : UInt8) ∉ bytes "node" := by decide
  have hnode := writable_setValue hserver hname (.number (by decide)
    node.nodeGateway.toNat (finite_ofNat node.nodeGateway.toNat_lt))
  exact writable_setString hnode (by decide) (by decide) node.status

theorem writable_nodesArray (nodes : List Node) : Writable 1 (nodesArray nodes) := by
  refine .array (by decide) fun v hv => ?_
  obtain ⟨node, _, rfl⟩ := List.mem_map.mp hv
  exact writable_nodeObject node

theorem readable_dataResponse (isSuccess : Bool) (hmessage : isValidUtf8 message)
    (nodes : List Node) :
    ∃ object, Readable (serverProtoDataResponse isSuccess message (nodesArray nodes)) object := by
  refine ⟨_, readable_payload (writable_setValue (writable_responseObject isSuccess message)
    (by decide) (writable_nodesArray nodes)) ?_⟩
  have hkeys := responseObject_keys isSuccess hmessage
  unfold objectGetString at hkeys ⊢
  rwa [objectGetValue_setValue, if_neg (by decide), objectGetValue_setValue, if_neg (by decide)]

theorem readable_addNodeResponse (insertNode : UInt8) :
    ∃ object, Readable (addNodeResponse insertNode) object := by
  unfold addNodeResponse
  split
  · exact readable_response false (by decide)
  split
  · exact readable_response false (by decide)
  · exact readable_response true (by decide)

-- ---------------------------------------------------------------------------
-- Which requests are answered
-- ---------------------------------------------------------------------------

theorem answers_response (hresult : result = 0 ∨ result = -1)
    (h : ∃ object, Readable response object) (db : Db.Database) :
    (Outcome.done result response db).Answers := ⟨hresult, h⟩

theorem handleGetNodes_answers_iff (host : Host) (io : DbIo) (db : Db.Database) :
    (handleGetNodes host io db).Answers ↔ io.Connects := by
  unfold handleGetNodes DbIo.Connects
  split
  case isTrue hopened =>
    refine iff_of_true ?_ (by simp_all)
    exact answers_response (.inl rfl) (readable_response false (by decide)) db
  split
  case isTrue hconnected => exact iff_of_false id (by simp_all)
  split
  case isTrue hconfigured => exact iff_of_false id (by simp_all)
  refine iff_of_true ?_ (by simp_all)
  split
  · exact answers_response (.inl rfl) (readable_dataResponse true (by decide) _) db
  · exact answers_response (.inl rfl) (readable_response false (by decide)) db

theorem handleAddNode_answers_iff (host : Host) (io : DbIo) (clientAddr : Bytes)
    (request : Option Object) (db : Db.Database) :
    (handleAddNode host io clientAddr request db).Answers ↔ io.Connects := by
  unfold handleAddNode DbIo.Connects
  split
  case isTrue hopened =>
    refine iff_of_true ?_ (by simp_all)
    exact answers_response (.inl rfl) (readable_response false (by decide)) db
  split
  case isTrue hconnected => exact iff_of_false id (by simp_all)
  split
  case isTrue hconfigured => exact iff_of_false id (by simp_all)
  refine iff_of_true ?_ (by simp_all)
  exact answers_response (.inl rfl) (readable_addNodeResponse _) _

/-- `__DATE__` and `__TIME__` are plain ASCII. -/
theorem isValidUtf8_version {host : Host} (htime : ∀ c ∈ host.compileTime, c < 128) : isValidUtf8 host.version := by
  have hname : ∀ c ∈ bytes "GeoNS v0.1.0 ", c < 128 := by decide +kernel
  unfold Host.version snprintf
  refine isValidUtf8_of_ascii fun c hc => ?_
  rcases List.mem_append.mp (List.mem_of_mem_take hc) with hc | hc
  · exact hname c hc
  · exact htime c hc

theorem nodeServerCallback_method (hmethod : methodOf buffer = some method) (host : Host)
    (io : DbIo) (clientAddr : Bytes) (db : Db.Database) :
    nodeServerCallback host io clientAddr buffer db =
      if startsWith method geonspMsgGetVersion then
        .done 0 (serverProtoResponse true host.version) db
      else if startsWith method geonspMsgGetNodes then handleGetNodes host io db
      else if startsWith method geonspMsgAddNode then
        handleAddNode host io clientAddr (valueGetObject (jsonParseString buffer)) db
      else .done (-1) (serverProtoResponse false (bytes "GEONSP: Invalid protocol method.")) db := by
  have hne : buffer ≠ [] := by
    rintro rfl
    revert hmethod
    simp [methodOf, requestValue, show jsonParseString [] = none by decide, valueGetObject,
      objectGetValue, valueGetString]
  have hhas : objectHasValue (valueGetObject (jsonParseString buffer)) (bytes "method") = true := by
    unfold methodOf requestValue at hmethod
    unfold objectHasValue
    cases hvalue : objectGetValue (valueGetObject (jsonParseString buffer)) (bytes "method") with
    | none => simp [hvalue, valueGetString] at hmethod
    | some v => rfl
  have hget : objectGetString (valueGetObject (jsonParseString buffer)) (bytes "method") =
      some method := hmethod
  simp only [nodeServerCallback, if_neg hne, hhas, if_true, hget]

def missingMessage (buffer : Bytes) : Bytes :=
  if buffer = [] then bytes "GEONSP: Empty protocol message."
  else bytes "GEONSP: Invalid protocol message."

theorem isValidUtf8_missingMessage (buffer : Bytes) : isValidUtf8 (missingMessage buffer) := by
  unfold missingMessage
  split <;> decide

theorem nodeServerCallback_missing (h : requestValue buffer (bytes "method") = none) (host : Host)
    (io : DbIo) (clientAddr : Bytes) (db : Db.Database) :
    nodeServerCallback host io clientAddr buffer db =
      .done (-1) (serverProtoResponse false (missingMessage buffer)) db := by
  have hhas : objectHasValue (valueGetObject (jsonParseString buffer)) (bytes "method") = false := by
    unfold requestValue at h
    rw [objectHasValue, h]
    rfl
  unfold nodeServerCallback missingMessage
  split
  · rfl
  · simp only [hhas]
    rfl

theorem nodeServerCallback_untyped (h : requestValue buffer (bytes "method") = some v)
    (hv : ∀ chars, v ≠ .string chars) (host : Host) (io : DbIo) (clientAddr : Bytes)
    (db : Db.Database) : nodeServerCallback host io clientAddr buffer db = .fault := by
  have hne : buffer ≠ [] := by
    rintro rfl
    revert h
    simp [requestValue, show jsonParseString [] = none by decide, valueGetObject, objectGetValue]
  have hhas : objectHasValue (valueGetObject (jsonParseString buffer)) (bytes "method") = true := by
    unfold requestValue at h
    rw [objectHasValue, h]
    rfl
  have hget : objectGetString (valueGetObject (jsonParseString buffer)) (bytes "method") = none := by
    unfold requestValue at h
    rw [objectGetString, h]
    cases v <;> first | rfl | exact absurd rfl (hv _)
  simp only [nodeServerCallback, if_neg hne, hhas, if_true, hget]

/-- The handler answers exactly the requests whose method is missing or a
string, where each one that has to wait for the database gets it. -/
theorem nodeServerCallback_answers_iff (host : Host) (htime : ∀ c ∈ host.compileTime, c < 128)
    (io : DbIo) (clientAddr buffer : Bytes) (db : Db.Database) :
    (nodeServerCallback host io clientAddr buffer db).Answers ↔
      MethodIsString buffer ∧ (AsksDatabase buffer → io.Connects) := by
  cases hvalue : requestValue buffer (bytes "method") with
  | none =>
    have hmethod : methodOf buffer = none := by rw [methodOf, hvalue]; rfl
    rw [nodeServerCallback_missing hvalue]
    refine iff_of_true ?_ ⟨?_, ?_⟩
    · exact answers_response (.inr rfl) (readable_response false (isValidUtf8_missingMessage buffer)) db
    · simp [MethodIsString, hvalue]
    · simp [AsksDatabase, hmethod]
  | some v =>
    by_cases hstring : ∃ chars, v = .string chars
    case neg =>
      rw [nodeServerCallback_untyped hvalue (fun chars hv => hstring ⟨chars, hv⟩)]
      exact iff_of_false id fun h => hstring (h.1 v hvalue)
    obtain ⟨chars, rfl⟩ := hstring
    have hmethod : methodOf buffer = some (cstr chars) := by rw [methodOf, hvalue]; rfl
    have htyped : MethodIsString buffer := by simp [MethodIsString, hvalue]
    rw [nodeServerCallback_method hmethod, and_iff_right htyped]
    simp only [AsksDatabase, hmethod, Option.some.injEq, exists_eq_left']
    split
    case isTrue hversion =>
      refine iff_of_true ?_ (by simp [hversion])
      exact answers_response (.inl rfl) (readable_response true (isValidUtf8_version htime)) db
    split
    case isTrue hnodes =>
      rw [handleGetNodes_answers_iff]
      simp_all [DbIo.Connects]
    split
    case isTrue hadd =>
      rw [handleAddNode_answers_iff]
      simp_all [DbIo.Connects]
    case isFalse =>
      refine iff_of_true ?_ (by simp_all)
      exact answers_response (.inr rfl) (readable_response false (by decide)) db

theorem nodeServerCallback_answers_versionRequest :
    (nodeServerCallback sampleHost .ok (bytes "10.0.0.5")
      (payload constructClientHelloRequest) ⟨false, []⟩).Answers := by
  have hmethod : methodOf (payload constructClientHelloRequest) = some geonspMsgGetVersion := by
    decide +kernel
  have htime : ∀ c ∈ sampleHost.compileTime, c < 128 := by decide +kernel
  have hconnects : DbIo.ok.Connects := fun _ => ⟨rfl, rfl⟩
  rw [nodeServerCallback_answers_iff sampleHost htime]
  exact ⟨methodIsString_of_methodOf hmethod, fun _ => hconnects⟩

theorem not_answers_numberRequest :
    nodeServerCallback sampleHost .ok (bytes "10.0.0.5") (bytes "\x7b\"method\":1\x7d") ⟨false, []⟩ =
        .fault ∧
      ¬ (nodeServerCallback sampleHost .ok (bytes "10.0.0.5") (bytes "\x7b\"method\":1\x7d")
        ⟨false, []⟩).Answers := by
  have hfault : nodeServerCallback sampleHost .ok (bytes "10.0.0.5")
      (bytes "\x7b\"method\":1\x7d") ⟨false, []⟩ = .fault := by decide +kernel
  exact ⟨hfault, by rw [hfault]; exact id⟩

end GeoNS.Geonsp
