import GeoNS.Holdings
import GeoNS.Geonsp.Received

/-!
# What the availability check holds on to

`is_geons_host_available` serialises its hello, connects, and parses the reply.
Each of its exits releases a part of what it has by then; the one for a peer that
answers and refuses forgets the server.
-/

namespace GeoNS.Geonsp.Availability

open CString Holdings Parson Received

inductive Token
  | request
  | hello
  | server
  | socket
  | response
  deriving DecidableEq, Repr

abbrev Acts := List (Act Token)

inductive Connect
  | noMemory
  | noSocket
  | badAddress
  | refused
  | connected
  deriving DecidableEq, Repr

structure Outcomes where
  ping : Bool
  connect : Connect
  recv : Recv
  room : recv.data.length ≤ maxGeonspBufferSize

/-- A server of the client side has no connections. The descriptor -1 of a socket
that was not opened is closed to no effect. -/
def killSocketServer (opened : Bool) : Acts := (if opened then [.release .socket] else []) ++ [.release .server]

def connectToSocketServer : Connect → Acts
  | .noMemory => []
  | .noSocket => .acquire .server :: killSocketServer false
  | .badAddress | .refused => [.acquire .server, .acquire .socket] ++ killSocketServer true
  | .connected => [.acquire .server, .acquire .socket]

inductive Ending
  | server
  | null
  | fault
  deriving DecidableEq, Repr

structure Check where
  acts : Acts
  ending : Ending
  deriving DecidableEq, Repr

/-- The check of the reply in the buffer; `strncmp` with NULL is a fault. -/
def checkReply (reply : Bytes) : Check :=
  let responseValue := jsonParseString reply
  let response := valueGetObject responseValue
  let parsed : Acts := if responseValue.isSome then [.acquire .response] else []
  let freed : Acts := if responseValue.isSome then [.release .response] else []
  if !objectHasValue response (bytes "status") || !objectHasValue response (bytes "message") then
    ⟨parsed ++ freed ++ killSocketServer true, .null⟩
  else
    match objectGetString response (bytes "status") with
    | none => ⟨parsed, .fault⟩
    | some status =>
      if !startsWith status (bytes "success") then ⟨parsed ++ freed, .null⟩
      else ⟨parsed ++ freed, .server⟩

def isGeonsHostAvailable (o : Outcomes) : Check :=
  let opening : Acts := [.acquire .request, .acquire .hello]
  let freed : Acts := [.release .hello, .release .request]
  if !o.ping then ⟨opening ++ freed, .null⟩
  else if o.connect ≠ .connected then ⟨opening ++ connectToSocketServer o.connect ++ freed, .null⟩
  else
    let acts := opening ++ connectToSocketServer o.connect ++ freed
    match receiveReply (List.replicate maxGeonspBufferSize 0) o.recv with
    | none => ⟨acts, .fault⟩
    | some buffer =>
      let check := checkReply (cstr buffer)
      ⟨acts ++ check.acts, check.ending⟩

-- ---------------------------------------------------------------------------
-- The reply
-- ---------------------------------------------------------------------------

def Outcomes.reply (o : Outcomes) : Bytes := cstr o.recv.data

def response (reply : Bytes) : Option Object := valueGetObject (jsonParseString reply)

def HasKeys (reply : Bytes) : Prop :=
  objectHasValue (response reply) (bytes "status") ∧ objectHasValue (response reply) (bytes "message")

def Succeeds (reply : Bytes) : Prop :=
  ∃ status, objectGetString (response reply) (bytes "status") = some status ∧
    startsWith status (bytes "success")

/-- The check ends in the server, with its socket open and nothing else kept, or in
NULL with nothing kept. -/
structure Clean (o : Outcomes) : Prop where
  safe : (isGeonsHostAvailable o).ending ≠ .fault
  server_iff : (isGeonsHostAvailable o).ending = .server ↔
    o.ping ∧ o.connect = .connected ∧ HasKeys o.reply ∧ Succeeds o.reply
  server : (isGeonsHostAvailable o).ending = .server →
    held (isGeonsHostAvailable o).acts = some [.socket, .server]
  null : (isGeonsHostAvailable o).ending = .null → held (isGeonsHostAvailable o).acts = some []

/-- A reply that comes is in the buffer with its terminator, and one with both keys
does not refuse. -/
def Willing (o : Outcomes) : Prop :=
  o.ping → o.connect = .connected → InArray o.recv ∧ (HasKeys o.reply → Succeeds o.reply)

theorem Clean.balanced (h : Clean o) (hnull : (isGeonsHostAvailable o).ending = .null) (r : Token) :
    (isGeonsHostAvailable o).acts.count (.release r) = (isGeonsHostAvailable o).acts.count (.acquire r) := by
  have hcount := count_held (h.null hnull) r
  rwa [List.count_nil, Nat.zero_add] at hcount

-- ---------------------------------------------------------------------------
-- The exits
-- ---------------------------------------------------------------------------

def connecting : Acts :=
  [.acquire .request, .acquire .hello] ++ connectToSocketServer .connected ++
    [.release .hello, .release .request]

inductive Replied (reply : Bytes) : Check → Prop
  | missing (h : ¬ HasKeys reply) (hheld : held (connecting ++ acts) = some []) : Replied reply ⟨acts, .null⟩
  | untyped (h : HasKeys reply) (hnot : ¬ Succeeds reply) : Replied reply ⟨acts, .fault⟩
  | refused (h : HasKeys reply) (hnot : ¬ Succeeds reply)
      (hheld : held (connecting ++ acts) = some [.socket, .server]) : Replied reply ⟨acts, .null⟩
  | accepted (h : HasKeys reply) (hsucceeds : Succeeds reply)
      (hheld : held (connecting ++ acts) = some [.socket, .server]) : Replied reply ⟨acts, .server⟩

theorem replied_checkReply (reply : Bytes) : Replied reply (checkReply reply) := by
  unfold checkReply
  dsimp only
  split
  case isTrue hmissing =>
    refine .missing ?_ ?_
    · simp only [Bool.or_eq_true, Bool.not_eq_true'] at hmissing
      rintro ⟨hstatus, hmessage⟩
      rw [response] at hstatus hmessage
      rcases hmissing with h | h <;> simp_all
    · cases jsonParseString reply <;> rfl
  case isFalse hboth =>
  have hkeys : HasKeys reply := by simpa [HasKeys, response] using hboth
  split
  case h_1 hnone =>
    refine .untyped hkeys ?_
    rintro ⟨status, hstatus, -⟩
    exact nomatch hnone.symm.trans hstatus
  case h_2 status hstatus =>
  split
  case isTrue hrefuses =>
    refine .refused hkeys ?_ (by cases jsonParseString reply <;> rfl)
    rintro ⟨status', hstatus', hsuccess⟩
    obtain rfl := Option.some.inj (hstatus.symm.trans hstatus')
    rw [hsuccess] at hrefuses
    contradiction
  case isFalse hsuccess =>
    refine .accepted hkeys ⟨status, hstatus, by simpa using hsuccess⟩ ?_
    cases jsonParseString reply <;> rfl

theorem isGeonsHostAvailable_reached (hping : o.ping) (hconnect : o.connect = .connected) :
    (¬ InArray o.recv ∧ (isGeonsHostAvailable o).ending = .fault) ∨
      InArray o.recv ∧ isGeonsHostAvailable o =
        ⟨connecting ++ (checkReply o.reply).acts, (checkReply o.reply).ending⟩ := by
  have hlength : (List.replicate maxGeonspBufferSize (0 : UInt8)).length = maxGeonspBufferSize :=
    List.length_replicate
  unfold isGeonsHostAvailable
  dsimp only
  rw [if_neg (by simp [hping]), if_neg (by simp [hconnect]), hconnect]
  by_cases hin : InArray o.recv
  · obtain ⟨buffer, hbuffer, -, -, htext⟩ := receiveReply_of_inArray hlength hin
    rw [hbuffer]
    dsimp only
    rw [htext]
    exact .inr ⟨hin, rfl⟩
  · rw [receiveReply_eq_none hlength o.room hin]
    exact .inl ⟨hin, rfl⟩

theorem isGeonsHostAvailable_unreached (h : ¬ (o.ping = true ∧ o.connect = .connected)) :
    (isGeonsHostAvailable o).ending = .null ∧ held (isGeonsHostAvailable o).acts = some [] := by
  unfold isGeonsHostAvailable
  dsimp only
  cases hping : o.ping with
  | false => exact ⟨rfl, rfl⟩
  | true =>
    cases hconnect : o.connect with
    | connected => exact absurd ⟨hping, hconnect⟩ h
    | noMemory | noSocket | badAddress | refused => exact ⟨rfl, rfl⟩

theorem clean_iff (o : Outcomes) : Clean o ↔ Willing o := by
  by_cases hreached : o.ping = true ∧ o.connect = .connected
  · obtain ⟨hping, hconnect⟩ := hreached
    have hwilling : Willing o ↔ InArray o.recv ∧ (HasKeys o.reply → Succeeds o.reply) :=
      ⟨fun h => h hping hconnect, fun h _ _ => h⟩
    rw [hwilling]
    rcases isGeonsHostAvailable_reached hping hconnect with ⟨hout, hfault⟩ | ⟨hin, hcheck⟩
    · exact iff_of_false (fun h => h.safe hfault) fun h => hout h.1
    rw [and_iff_right hin]
    have hreplied := replied_checkReply o.reply
    generalize checkReply o.reply = check at hreplied hcheck
    constructor
    · intro h hkeys
      by_contra hnot
      have hsafe := h.safe
      have hnull := h.null
      rw [hcheck] at hsafe hnull
      cases hreplied with
      | missing hno => exact hno hkeys
      | untyped => exact hsafe rfl
      | refused _ _ hheld =>
        -- the server and its socket are still held
        exact nomatch hheld.symm.trans (hnull rfl)
      | accepted _ hsucceeds => exact hnot hsucceeds
    · intro h
      cases hreplied with
      | missing hno hheld =>
        constructor <;> rw [hcheck]
        · exact nofun
        · exact iff_of_false nofun fun h => hno h.2.2.1
        · exact nofun
        · exact fun _ => hheld
      | untyped hkeys hnot | refused hkeys hnot => exact absurd (h hkeys) hnot
      | accepted hkeys hsucceeds hheld =>
        constructor <;> rw [hcheck]
        · exact nofun
        · exact iff_of_true rfl ⟨hping, hconnect, hkeys, hsucceeds⟩
        · exact fun _ => hheld
        · exact nofun
  · obtain ⟨hnull, hheld⟩ := isGeonsHostAvailable_unreached hreached
    refine iff_of_true ?_ fun hping hconnect => absurd ⟨hping, hconnect⟩ hreached
    constructor <;> rw [hnull]
    · exact nofun
    · exact iff_of_false nofun fun h => hreached ⟨h.1, h.2.1⟩
    · exact nofun
    · exact fun _ => hheld

-- ---------------------------------------------------------------------------
-- The protocol's check
-- ---------------------------------------------------------------------------

def Ending.accepted : Ending → Option Bool
  | .server => some true
  | .null => some false
  | .fault => none

theorem helloAccepted_eq (reply : Bytes) : helloAccepted reply = (checkReply reply).ending.accepted := by
  unfold helloAccepted checkReply
  dsimp only
  cases objectHasValue (valueGetObject (jsonParseString reply)) (bytes "status") with
  | false => rfl
  | true =>
    cases objectHasValue (valueGetObject (jsonParseString reply)) (bytes "message") with
    | false => rfl
    | true =>
      cases objectGetString (valueGetObject (jsonParseString reply)) (bytes "status") with
      | none => rfl
      | some status =>
        simp only [Bool.and_self, if_true, Option.map_some, Bool.not_true, Bool.or_self,
          Bool.false_eq_true, if_false]
        cases startsWith status (bytes "success") <;> rfl

theorem isGeonsHostAvailable_eq (o : Outcomes) (nodes : Bytes)
    (hin : o.ping → o.connect = .connected → InArray o.recv) :
    Geonsp.isGeonsHostAvailable ⟨o.ping, o.connect = .connected, o.reply, nodes⟩ =
      (isGeonsHostAvailable o).ending.accepted := by
  unfold Geonsp.isGeonsHostAvailable
  by_cases hreached : o.ping = true ∧ o.connect = .connected
  · obtain ⟨hping, hconnect⟩ := hreached
    rcases isGeonsHostAvailable_reached hping hconnect with ⟨hout, -⟩ | ⟨-, hcheck⟩
    · exact absurd (hin hping hconnect) hout
    · rw [hcheck, if_pos (by simp [hping, hconnect])]
      exact helloAccepted_eq o.reply
  · rw [(isGeonsHostAvailable_unreached hreached).1, if_neg (by simpa using hreached)]
    rfl

-- ---------------------------------------------------------------------------
-- A peer that refuses
-- ---------------------------------------------------------------------------

def refusal : Bytes := bytes "\x7b\"status\":\"failed\",\"message\":\"no\"\x7d"

def refused : Outcomes := ⟨true, .connected, .stored refusal, by decide +kernel⟩

/-- The server is neither returned nor killed. -/
theorem not_clean_refused : (isGeonsHostAvailable refused).ending = .null ∧
    held (isGeonsHostAvailable refused).acts = some [.socket, .server] ∧ ¬ Clean refused := by
  have hnull : (isGeonsHostAvailable refused).ending = .null := by decide +kernel
  have hheld : held (isGeonsHostAvailable refused).acts = some [.socket, .server] := by decide +kernel
  exact ⟨hnull, hheld, fun h => nomatch hheld.symm.trans (h.null hnull)⟩

end GeoNS.Geonsp.Availability
