import GeoNS.Geonsp.Protocol

/-!
# Where received texts end

A reply gets a NUL at the index that `recv` returned. A request gets none; it
ends where its buffer, which was zeroed, still has a NUL, or where a message
brought one.
-/

namespace GeoNS.Geonsp.Received

open CString

/-- The result of a `recv`: -1, or the bytes that it stored. -/
inductive Recv
  | error
  | stored (data : Bytes)
  deriving DecidableEq, Repr

def Recv.count : Recv → Int
  | .error => -1
  | .stored data => data.length

def Recv.data : Recv → Bytes
  | .error => []
  | .stored data => data

def overwrite (buffer data : Bytes) : Bytes := data ++ buffer.drop data.length

-- ---------------------------------------------------------------------------
-- Replies
-- ---------------------------------------------------------------------------

/-- A reply with its terminator; `none` is a write outside of the buffer. -/
def receiveReply (buffer : Bytes) (r : Recv) : Option Bytes :=
  let buffer := overwrite buffer r.data
  if 0 ≤ r.count ∧ r.count < buffer.length then some (buffer.set r.count.toNat 0) else none

/-- The buffers of an exchange after each of its replies: the one of
`is_geons_host_available`, and after a hello that is accepted the one of
`handle_node_info_exchange`, with what was on the stack. -/
def exchangeBuffers (stack : Bytes) (hello added nodes : Recv) : List (Option Bytes) :=
  match receiveReply (List.replicate maxGeonspBufferSize 0) hello with
  | none => [none]
  | some buffer =>
    some buffer ::
      if helloAccepted (cstr buffer) = some true then
        match receiveReply stack added with
        | none => [none]
        | some buffer => [some buffer, receiveReply buffer nodes]
      else []

/-- The index of the terminator is in the array. -/
def InArray (r : Recv) : Prop := 0 ≤ r.count ∧ r.count < maxGeonspBufferSize

instance (r : Recv) : Decidable (InArray r) := inferInstanceAs (Decidable (_ ∧ _))

/-- The write is inside of the buffer, and there the text ends. -/
def Ends (buffer : Option Bytes) : Prop := ∃ text, buffer = some text ∧ (0 : UInt8) ∈ text

theorem receiveReply_stored {buffer data : Bytes} (h : data.length < buffer.length) :
    receiveReply buffer (.stored data) = some (data ++ 0 :: buffer.drop (data.length + 1)) := by
  have hover : overwrite buffer data = data ++ buffer[data.length] :: buffer.drop (data.length + 1) :=
    congrArg (data ++ ·) (List.drop_eq_getElem_cons h)
  have hin : 0 ≤ (Recv.stored data).count ∧
      (Recv.stored data).count < (overwrite buffer (Recv.stored data).data).length := by
    simp only [Recv.count, Recv.data, hover, List.length_append, List.length_cons]
    omega
  unfold receiveReply
  dsimp only
  rw [if_pos hin]
  change some ((overwrite buffer data).set data.length 0) = _
  rw [hover, List.set_append_right _ _ (Nat.le_refl _), Nat.sub_self, List.set_cons_zero]

theorem receiveReply_eq_none {buffer : Bytes} (hbuffer : buffer.length = maxGeonspBufferSize) {r : Recv}
    (hr : r.data.length ≤ maxGeonspBufferSize) (h : ¬ InArray r) : receiveReply buffer r = none := by
  have hlength : (overwrite buffer r.data).length = maxGeonspBufferSize := by
    rw [overwrite, List.length_append, List.length_drop]
    omega
  unfold receiveReply
  dsimp only
  rw [hlength]
  exact if_neg h

theorem receiveReply_of_inArray {buffer : Bytes} (hbuffer : buffer.length = maxGeonspBufferSize) {r : Recv}
    (hr : InArray r) : ∃ text, receiveReply buffer r = some text ∧ (0 : UInt8) ∈ text ∧
      text.length = maxGeonspBufferSize ∧ cstr text = cstr r.data := by
  cases r with
  | error => exact absurd hr (by decide)
  | stored data =>
    have hlt : data.length < buffer.length := by
      have hupper := hr.2
      rw [hbuffer]
      simp only [Recv.count] at hupper
      omega
    refine ⟨_, receiveReply_stored hlt, by simp, ?_, cstr_append_zero_cons data _⟩
    rw [List.length_append, List.length_cons, List.length_drop]
    omega

theorem ends_receiveReply_iff {buffer : Bytes} (hbuffer : buffer.length = maxGeonspBufferSize) {r : Recv}
    (hr : r.data.length ≤ maxGeonspBufferSize) : Ends (receiveReply buffer r) ↔ InArray r := by
  constructor
  · rintro ⟨text, htext, -⟩
    by_contra hnot
    rw [receiveReply_eq_none hbuffer hr hnot] at htext
    contradiction
  · intro h
    obtain ⟨text, htext, hmem, -⟩ := receiveReply_of_inArray hbuffer h
    exact ⟨text, htext, hmem⟩

structure Replies where
  hello : Recv
  added : Recv
  nodes : Recv
  room : ∀ r ∈ [hello, added, nodes], r.data.length ≤ maxGeonspBufferSize

theorem ends_exchangeBuffers_iff {stack : Bytes} (hstack : stack.length = maxGeonspBufferSize)
    (replies : Replies) :
    (∀ buffer ∈ exchangeBuffers stack replies.hello replies.added replies.nodes, Ends buffer) ↔
      InArray replies.hello ∧ (helloAccepted (cstr replies.hello.data) = some true →
        InArray replies.added ∧ InArray replies.nodes) := by
  obtain ⟨hello, added, nodes, hroom⟩ := replies
  have hzeroed : (List.replicate maxGeonspBufferSize (0 : UInt8)).length = maxGeonspBufferSize :=
    List.length_replicate
  dsimp only
  unfold exchangeBuffers
  by_cases hhello : InArray hello
  · obtain ⟨text, htext, hmem, -, hcstr⟩ := receiveReply_of_inArray hzeroed hhello
    rw [htext, and_iff_right hhello]
    dsimp only
    rw [hcstr, List.forall_mem_cons, and_iff_right ⟨text, rfl, hmem⟩]
    by_cases haccepted : helloAccepted (cstr hello.data) = some true
    · rw [if_pos haccepted]
      simp only [haccepted, forall_const]
      by_cases hadded : InArray added
      · obtain ⟨text', htext', hmem', hlength, -⟩ := receiveReply_of_inArray hstack hadded
        have hnodes := ends_receiveReply_iff hlength (hroom nodes (by simp))
        rw [htext']
        dsimp only
        rw [List.forall_mem_cons, and_iff_right ⟨text', rfl, hmem'⟩, List.forall_mem_singleton, hnodes,
          and_iff_right hadded]
      · rw [receiveReply_eq_none hstack (hroom added (by simp)) hadded]
        simp [Ends, hadded]
    · rw [if_neg haccepted]
      simp [haccepted]
  · rw [receiveReply_eq_none hzeroed (hroom hello (by simp)) hhello]
    simp [Ends, hhello]

-- ---------------------------------------------------------------------------
-- Requests
-- ---------------------------------------------------------------------------

/-- The buffers that `handle_client` hands to its callback, one for each message.
The loop ends with the first result that is not positive. -/
def clientBuffers (buffer : Bytes) : List Recv → List Bytes
  | .stored (c :: cs) :: results =>
    let buffer := overwrite buffer (c :: cs)
    buffer :: clientBuffers buffer results
  | _ => []

def messages (results : List Recv) : List Bytes := (results.map Recv.data).takeWhile (· ≠ [])

def lastAt (i : Nat) (ms : List Bytes) : UInt8 := ms.foldl (fun byte m => m.getD i byte) 0

theorem mem_clientBuffers_iff (buffer text : Bytes) (results : List Recv) :
    text ∈ clientBuffers buffer results ↔ ∃ n < (messages results).length,
      text = ((messages results).take (n + 1)).foldl overwrite buffer := by
  induction results generalizing buffer with
  | nil => simp [clientBuffers, messages]
  | cons r results ih =>
    match r with
    | .error | .stored [] => simp [clientBuffers, messages, Recv.data]
    | .stored (c :: cs) =>
      have hmessages : messages (.stored (c :: cs) :: results) = (c :: cs) :: messages results := by
        simp [messages, Recv.data]
      rw [clientBuffers, hmessages, List.mem_cons, ih]
      constructor
      · rintro (rfl | ⟨n, hn, rfl⟩)
        · exact ⟨0, Nat.succ_pos _, rfl⟩
        · exact ⟨n + 1, Nat.succ_lt_succ hn, rfl⟩
      · rintro ⟨n, hn, rfl⟩
        cases n with
        | zero => exact .inl rfl
        | succ n => exact .inr ⟨n, Nat.lt_of_succ_lt_succ hn, rfl⟩

theorem length_foldl_overwrite {buffer : Bytes} {ms : List Bytes} (h : ∀ m ∈ ms, m.length ≤ buffer.length) :
    (ms.foldl overwrite buffer).length = buffer.length := by
  induction ms generalizing buffer with
  | nil => rfl
  | cons m ms ih =>
    have hlength : (overwrite buffer m).length = buffer.length := by
      have hm := h m List.mem_cons_self
      rw [overwrite, List.length_append, List.length_drop]
      omega
    rw [List.foldl_cons, ih fun m' hm' => hlength ▸ h m' (List.mem_cons_of_mem m hm'), hlength]

theorem getD_overwrite (buffer m : Bytes) (i : Nat) :
    (overwrite buffer m).getD i 0 = m.getD i (buffer.getD i 0) := by
  rcases Nat.lt_or_ge i m.length with h | h
  · rw [overwrite, List.getD_append _ _ _ _ h, List.getD_eq_getElem _ _ h, List.getD_eq_getElem _ _ h]
  · rw [overwrite, List.getD_append_right _ _ _ _ h, List.getD_eq_default _ _ h,
      List.getD_eq_getElem?_getD, List.getElem?_drop, Nat.add_sub_cancel' h,
      ← List.getD_eq_getElem?_getD]

theorem getD_foldl_overwrite (buffer : Bytes) (ms : List Bytes) (i : Nat) :
    (ms.foldl overwrite buffer).getD i 0 = ms.foldl (fun byte m => m.getD i byte) (buffer.getD i 0) := by
  induction ms generalizing buffer with
  | nil => rfl
  | cons m ms ih => rw [List.foldl_cons, ih, getD_overwrite, List.foldl_cons]

theorem zero_mem_iff {s : Bytes} : (0 : UInt8) ∈ s ↔ ∃ i < s.length, s.getD i 0 = 0 := by
  constructor
  · intro h
    obtain ⟨i, hi, heq⟩ := List.mem_iff_getElem.mp h
    exact ⟨i, hi, by rw [List.getD_eq_getElem _ _ hi, heq]⟩
  · rintro ⟨i, hi, heq⟩
    rw [List.getD_eq_getElem _ _ hi] at heq
    exact List.mem_iff_getElem.mpr ⟨i, hi, heq⟩

theorem terminated_clientBuffers_iff {limit : Nat} {results : List Recv}
    (hroom : ∀ r ∈ results, r.data.length ≤ limit) :
    (∀ buffer ∈ clientBuffers (List.replicate limit 0) results,
        buffer.length = limit ∧ (0 : UInt8) ∈ buffer) ↔
      ∀ n < (messages results).length, ∃ i < limit, lastAt i ((messages results).take (n + 1)) = 0 := by
  have hmessages : ∀ n, ∀ m ∈ (messages results).take n, m.length ≤ (List.replicate limit (0 : UInt8)).length := by
    intro n m hm
    obtain ⟨r, hr, rfl⟩ := List.mem_map.mp ((List.takeWhile_prefix _).subset (List.mem_of_mem_take hm))
    rw [List.length_replicate]
    exact hroom r hr
  have hbyte : ∀ i ms, (ms.foldl overwrite (List.replicate limit 0)).getD i 0 = lastAt i ms := by
    intro i ms
    have hzero : (List.replicate limit (0 : UInt8)).getD i 0 = 0 := by
      rcases Nat.lt_or_ge i limit with h | h
      · simp [List.getD_eq_getElem?_getD, h]
      · exact List.getD_eq_default _ _ (by rwa [List.length_replicate])
    rw [getD_foldl_overwrite, hzero, lastAt]
  have heach : ∀ n, ((((messages results).take n).foldl overwrite (List.replicate limit 0)).length = limit ∧
      (0 : UInt8) ∈ ((messages results).take n).foldl overwrite (List.replicate limit 0)) ↔
        ∃ i < limit, lastAt i ((messages results).take n) = 0 := by
    intro n
    have hlength := length_foldl_overwrite (hmessages n)
    rw [List.length_replicate] at hlength
    rw [and_iff_right hlength, zero_mem_iff, hlength]
    simp only [hbyte]
  constructor
  · intro h n hn
    exact (heach (n + 1)).mp (h _ ((mem_clientBuffers_iff _ _ _).mpr ⟨n, hn, rfl⟩))
  · intro h buffer hbuffer
    obtain ⟨n, hn, rfl⟩ := (mem_clientBuffers_iff _ _ _).mp hbuffer
    exact (heach (n + 1)).mpr (h n hn)

-- ---------------------------------------------------------------------------
-- All places
-- ---------------------------------------------------------------------------

/-- Every text that is received ends in its buffer, and nothing is written outside. -/
structure Terminated (stack : Bytes) (replies : Replies) (limit : Nat) (results : List Recv) : Prop where
  replies : ∀ buffer ∈ exchangeBuffers stack replies.hello replies.added replies.nodes, Ends buffer
  requests : ∀ buffer ∈ clientBuffers (List.replicate limit 0) results,
    buffer.length = limit ∧ (0 : UInt8) ∈ buffer

/-- The replies leave room for a NUL, and with every message there is a place of
the buffer that no message has reached, or the last one with a NUL. -/
structure Room (replies : Replies) (limit : Nat) (results : List Recv) : Prop where
  hello : InArray replies.hello
  later : helloAccepted (cstr replies.hello.data) = some true →
    InArray replies.added ∧ InArray replies.nodes
  requests : ∀ n < (messages results).length,
    ∃ i < limit, lastAt i ((messages results).take (n + 1)) = 0

theorem terminated_iff_room {stack : Bytes} (hstack : stack.length = maxGeonspBufferSize)
    (replies : Replies) {limit : Nat} {results : List Recv}
    (hroom : ∀ r ∈ results, r.data.length ≤ limit) :
    Terminated stack replies limit results ↔ Room replies limit results := by
  have hreplies := ends_exchangeBuffers_iff hstack replies
  have hrequests := terminated_clientBuffers_iff hroom
  constructor
  · intro h
    obtain ⟨hhello, hlater⟩ := hreplies.mp h.replies
    exact ⟨hhello, hlater, hrequests.mp h.requests⟩
  · intro h
    exact ⟨hreplies.mpr ⟨h.hello, h.later⟩, hrequests.mpr h.requests⟩

def helloReply : Bytes := bytes "\x7b\"status\":\"success\",\"message\":\"GeoNS\"\x7d"

def shortReplies : Replies := ⟨.stored helloReply, .stored (bytes "ok"), .stored [], by decide⟩

def indexRequest : Bytes := bytes "GET / HTTP/1.1\r\n\r\n"

theorem terminated_shortReplies :
    Terminated (List.replicate 4096 255) shortReplies 4095 [.stored indexRequest, .stored []] := by
  refine (terminated_iff_room List.length_replicate shortReplies (by decide)).mpr
    ⟨by decide, fun _ => by decide, fun n hn => ?_⟩
  have hone : (messages [.stored indexRequest, .stored []]).length = 1 := by decide
  obtain rfl : n = 0 := by omega
  exact ⟨18, by decide, by decide⟩

def failedReplies : Replies := ⟨.error, .error, .error, by decide⟩

def fullText (n : Nat) : Bytes := List.replicate n 120

theorem length_fullText (n : Nat) : (fullText n).length = n := List.length_replicate

theorem zero_notMem_fullText (n : Nat) : (0 : UInt8) ∉ fullText n := fun h =>
  absurd (List.eq_of_mem_replicate h) (by decide)

def fullReplies : Replies where
  hello := .stored (fullText maxGeonspBufferSize)
  added := .error
  nodes := .error
  room := by
    rintro r hr
    rcases List.mem_cons.mp hr with rfl | hr
    · exact Nat.le_of_eq (length_fullText _)
    · rcases List.mem_cons.mp hr with rfl | hr
      · decide
      · rw [List.mem_singleton.mp hr]
        decide

theorem not_inArray_fullReplies : ¬ InArray fullReplies.hello := by
  rintro ⟨-, hlt⟩
  simp only [fullReplies, Recv.count, length_fullText] at hlt
  exact absurd hlt (Int.lt_irrefl _)

theorem clientBuffers_full {buffer data : Bytes} (hne : data ≠ []) (h : buffer.length ≤ data.length) :
    clientBuffers buffer [.stored data] = [data] := by
  cases data with
  | nil => contradiction
  | cons c cs =>
    rw [clientBuffers, overwrite, List.drop_eq_nil_of_le h, List.append_nil]
    rfl

/-- An error is written before the array, a full buffer behind it, and a request
that fills the limit has no end. -/
theorem not_terminated_results :
    let stack := List.replicate maxGeonspBufferSize 0
    let request := fullText baseHttpRequestSize
    receiveReply stack failedReplies.hello = none ∧ receiveReply stack fullReplies.hello = none ∧
      clientBuffers (List.replicate baseHttpRequestSize 0) [.stored request] = [request] ∧
      ¬ Terminated stack failedReplies baseHttpRequestSize [] ∧
      ¬ Terminated stack fullReplies baseHttpRequestSize [] ∧
      ¬ Terminated stack shortReplies baseHttpRequestSize [.stored request] := by
  intro stack request
  have hstack : stack.length = maxGeonspBufferSize := List.length_replicate
  have hfailed : ¬ InArray failedReplies.hello := by decide
  have hbuffers : clientBuffers (List.replicate baseHttpRequestSize 0) [.stored request] = [request] := by
    refine clientBuffers_full ?_ ?_
    · exact List.ne_nil_of_length_pos (by rw [length_fullText]; decide)
    · rw [List.length_replicate, length_fullText]
  refine ⟨receiveReply_eq_none hstack (by decide) hfailed,
    receiveReply_eq_none hstack (fullReplies.room _ List.mem_cons_self) not_inArray_fullReplies,
    hbuffers, ?_, ?_, ?_⟩
  · intro h
    exact hfailed ((ends_exchangeBuffers_iff hstack failedReplies).mp h.replies).1
  · intro h
    exact not_inArray_fullReplies ((ends_exchangeBuffers_iff hstack fullReplies).mp h.replies).1
  · intro h
    exact zero_notMem_fullText _ (h.requests request (hbuffers ▸ List.mem_singleton_self _)).2

end GeoNS.Geonsp.Received
