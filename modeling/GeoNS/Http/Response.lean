import GeoNS.HttpMessage
import GeoNS.Http.Specs

/-!
# Responses on the wire

The header block grows with every call of `set_http_response_header`, and
`send_http_response` writes it behind the status line. The texts are measured by
the `int` that `snprintf` returns, which is -1 for a text it cannot count.
-/

namespace GeoNS.Http.Response

open CString HttpMessage

def maxInt : Nat := 2147483647

-- ---------------------------------------------------------------------------
-- The header block
-- ---------------------------------------------------------------------------

/-- A call of `set_http_response_header`: the name, the text that the format
gives, that no argument is NULL, and the outcomes of the two allocations. -/
structure HeaderCall where
  name : Bytes
  value : Bytes
  given : Bool
  memalloc : Bool
  grow : Bool
  deriving DecidableEq, Repr

def HeaderCall.line (call : HeaderCall) : Bytes := field call.name call.value ++ crlf

/-- The result of a call and the block after it. There is none where a text is
read, or is to be written, outside of what is allocated: the size of a text that
was not counted is compared with 0 as a `size_t`, and 0 bytes are allocated. -/
def setHeader (headers : Option Bytes) (call : HeaderCall) : Option (Bool × Option Bytes) :=
  if !call.given then some (false, headers)
  else if !call.memalloc then some (false, headers)
  else if maxInt < call.value.length then none
  else if !call.grow then some (false, headers)
  else if maxInt < call.line.length then none
  else some (true, setHttpResponseHeader headers call.name call.value)

def setHeaders (headers : Option Bytes) (calls : List HeaderCall) : Option (Option Bytes) :=
  calls.foldlM (fun headers call => (setHeader headers call).map (·.2)) headers

def HeaderCall.succeeds (call : HeaderCall) : Bool := call.given && call.memalloc && call.grow

def added (calls : List HeaderCall) : List (Bytes × Bytes) :=
  (calls.filter (·.succeeds)).map fun call => (call.name, call.value)

/-- The block that holds them, which is NULL before the first one. -/
def block (calls : List HeaderCall) : Option Bytes :=
  if added calls = [] then none else some (fields (added calls))

-- ---------------------------------------------------------------------------
-- The response
-- ---------------------------------------------------------------------------

def responseSize (response : HttpResponse) : Nat :=
  8 + 5 + response.reasonPhrase.length + 2 +
    ((snprintf 64 (bytes "Server: " ++ geonsWebserverInfo)).length + 2) +
    (response.headers.getD []).length + 2 + response.body.length

/-- What is sent. The body is put where the count of the head ends; for a head
that is not counted that is before the buffer. -/
def sendResponse (response : HttpResponse) : Option Bytes :=
  if maxInt < response.head.length then none else some (sendHttpResponse response)

def responseOf (statusCode : Nat) (headers : Option Bytes) (body : Bytes) : HttpResponse :=
  ⟨statusCode, getReasonPhrase statusCode, headers, body⟩

def messageOf (statusCode : Nat) (headers : List (Bytes × Bytes)) (body : Bytes) : Message :=
  ⟨bytes "HTTP/1.1", statusCode, getReasonPhrase statusCode,
    (bytes "Server", geonsWebserverInfo) :: headers, body⟩

/-- The calls end with a block, and the response with it is sent at its size and
read back as it was meant. -/
def RoundTrips (statusCode : Nat) (calls : List HeaderCall) (body : Bytes) : Prop :=
  ∃ headers buffer, setHeaders none calls = some headers ∧
    sendResponse (responseOf statusCode headers body) = some buffer ∧
    buffer.length = responseSize (responseOf statusCode headers body) ∧
    decode buffer = some (messageOf statusCode (added calls) body)

/-- Every text is counted: the values, and the head of the response. -/
def Counted (statusCode : Nat) (calls : List HeaderCall) : Prop :=
  (∀ call ∈ calls, call.given → call.memalloc → call.value.length ≤ maxInt) ∧
    (responseOf statusCode (block calls) []).head.length ≤ maxInt

-- ---------------------------------------------------------------------------
-- The block of a run
-- ---------------------------------------------------------------------------

/-- The texts that a call writes are counted. -/
def HeaderCall.Counted (call : HeaderCall) : Prop :=
  (call.given → call.memalloc → call.value.length ≤ maxInt) ∧
    (call.succeeds → call.line.length ≤ maxInt)

theorem setHeader_of_counted (headers : Option Bytes) {call : HeaderCall} (h : call.Counted) :
    setHeader headers call = some (call.succeeds,
      if call.succeeds then setHttpResponseHeader headers call.name call.value else headers) := by
  obtain ⟨hvalue, hline⟩ := h
  unfold setHeader
  unfold HeaderCall.succeeds at hline ⊢
  cases hgiven : call.given with
  | false => rfl
  | true =>
    cases hmemalloc : call.memalloc with
    | false => rfl
    | true =>
      have hcounted := Nat.not_lt_of_le (hvalue hgiven hmemalloc)
      cases hgrow : call.grow with
      | false => simp [hcounted]
      | true =>
        have hfits := Nat.not_lt_of_le (hline (by simp [hgiven, hmemalloc, hgrow]))
        simp [hcounted, hfits]

theorem counted_of_setHeader (h : setHeader headers call = some r) : call.Counted := by
  unfold setHeader at h
  unfold HeaderCall.Counted HeaderCall.succeeds
  split at h
  · rename_i hgiven
    have hnot : call.given = false := by simpa using hgiven
    simp [hnot]
  split at h
  · rename_i hmemalloc
    have hnot : call.memalloc = false := by simpa using hmemalloc
    simp [hnot]
  split at h
  · contradiction
  rename_i hvalue
  split at h
  · rename_i hgrow
    have hnot : call.grow = false := by simpa using hgrow
    exact ⟨fun _ _ => Nat.le_of_not_lt hvalue, by simp [hnot]⟩
  split at h
  · contradiction
  rename_i hline
  exact ⟨fun _ _ => Nat.le_of_not_lt hvalue, fun _ => Nat.le_of_not_lt hline⟩

theorem setHeader_failed (h : setHeader headers call = some (false, headers')) : headers' = headers := by
  have heq := (setHeader_of_counted headers (counted_of_setHeader h)).symm.trans h
  obtain ⟨hfails, hblock⟩ := Prod.mk.inj (Option.some.inj heq)
  rw [hfails] at hblock
  exact hblock.symm

theorem setHttpResponseHeader_eq (headers : Option Bytes) (call : HeaderCall) :
    setHttpResponseHeader headers call.name call.value = some (headers.getD [] ++ call.line) := by
  have hcolon : bytes ": " = [58, 32] := by decide
  have hcrlf : bytes "\r\n" = crlf := by decide
  simp [setHttpResponseHeader, HeaderCall.line, field, hcolon, hcrlf]

theorem added_cons (call : HeaderCall) (calls : List HeaderCall) :
    added (call :: calls) =
      if call.succeeds then (call.name, call.value) :: added calls else added calls := by
  unfold added
  cases hsucceeds : call.succeeds <;> simp [hsucceeds]

theorem setHeaders_of_counted (headers : Option Bytes) (h : ∀ call ∈ calls, HeaderCall.Counted call) :
    setHeaders headers calls = some
      (if added calls = [] then headers else some (headers.getD [] ++ fields (added calls))) := by
  induction calls generalizing headers with
  | nil => rfl
  | cons call calls ih =>
    obtain ⟨hcall, hcalls⟩ := List.forall_mem_cons.mp h
    have hstep : setHeaders headers (call :: calls) = setHeaders
        (if call.succeeds then setHttpResponseHeader headers call.name call.value else headers) calls := by
      simp [setHeaders, setHeader_of_counted headers hcall]
    rw [hstep, ih _ hcalls, added_cons]
    cases call.succeeds with
    | false => rfl
    | true =>
      rw [if_pos rfl, if_pos rfl, setHttpResponseHeader_eq, if_neg (List.cons_ne_nil _ _)]
      by_cases hnil : added calls = []
      · simp [hnil, fields, HeaderCall.line]
      · simp [hnil, fields, HeaderCall.line]

theorem counted_of_setHeaders (h : setHeaders headers calls = some headers') :
    ∀ call ∈ calls, HeaderCall.Counted call := by
  induction calls generalizing headers with
  | nil => simp
  | cons call calls ih =>
    cases hstep : setHeader headers call with
    | none => simp [setHeaders, hstep] at h
    | some r =>
      have hrest : setHeaders r.2 calls = some headers' := by simpa [setHeaders, hstep] using h
      exact List.forall_mem_cons.mpr ⟨counted_of_setHeader hstep, ih hrest⟩

theorem setHeaders_none_of_counted (h : ∀ call ∈ calls, HeaderCall.Counted call) :
    setHeaders none calls = some (block calls) := by
  rw [setHeaders_of_counted none h, block, Option.getD_none, List.nil_append]

-- ---------------------------------------------------------------------------
-- The response of a run
-- ---------------------------------------------------------------------------

theorem serverHeader_eq :
    snprintf 64 (bytes "Server: " ++ geonsWebserverInfo) = field (bytes "Server") geonsWebserverInfo := by
  decide +kernel

theorem block_getD (calls : List HeaderCall) : (block calls).getD [] = fields (added calls) := by
  unfold block
  split
  · rename_i hnil
    rw [hnil]
    rfl
  · rfl

theorem head_eq (statusCode : Nat) (calls : List HeaderCall) (body : Bytes) :
    (responseOf statusCode (block calls) body).head =
      statusLine (bytes "HTTP/1.1") statusCode (getReasonPhrase statusCode) ++ crlf ++
        (fields ((bytes "Server", geonsWebserverInfo) :: added calls) ++ crlf) := by
  have hversion : bytes "HTTP/1.1 " = bytes "HTTP/1.1" ++ [32] := by decide
  have hspace : bytes " " = [32] := by decide
  have hcrlf : bytes "\r\n" = crlf := by decide
  simp [HttpResponse.head, responseOf, serverHeader_eq, block_getD, statusLine, fields, hversion, hspace,
    hcrlf]

theorem encode_eq (statusCode : Nat) (calls : List HeaderCall) (body : Bytes) :
    encode (messageOf statusCode (added calls) body) =
      (responseOf statusCode (block calls) body).head ++ body := by
  rw [head_eq]
  simp [encode, messageOf]

theorem responseSize_eq (hlow : 100 ≤ statusCode) (hhigh : statusCode < 1000)
    (headers : Option Bytes) (body : Bytes) :
    responseSize (responseOf statusCode headers body) =
      (responseOf statusCode headers body).head.length + body.length := by
  have hversion : (bytes "HTTP/1.1 ").length = 9 := by decide
  have hspace : (bytes " ").length = 1 := by decide
  have hcrlf : (bytes "\r\n").length = 2 := by decide
  have hcode := length_dec hlow hhigh
  simp only [responseSize, HttpResponse.head, responseOf, List.length_append, hversion, hspace, hcrlf,
    hcode]
  omega

theorem memcpy_append (text body : Bytes) (n : Nat) (hn : n = text.length + body.length) :
    (memcpy (memcpy (List.replicate (n + 1) 0) 0 text) text.length body).take n = text ++ body := by
  have htext : (memcpy (List.replicate (n + 1) 0) 0 text).take text.length = text := by simp [memcpy]
  rw [memcpy, htext, List.take_append_of_le_length (by simp [hn])]
  simp [hn]

theorem sendHttpResponse_eq (hlow : 100 ≤ statusCode) (hhigh : statusCode < 1000)
    (headers : Option Bytes) (body : Bytes) :
    sendHttpResponse (responseOf statusCode headers body) =
      (responseOf statusCode headers body).head ++ body := by
  have hsize := responseSize_eq hlow hhigh headers body
  have hhead : snprintf ((responseOf statusCode headers body).head.length + 1)
      (responseOf statusCode headers body).head = (responseOf statusCode headers body).head := by
    simp [snprintf]
  have hheadSize : 8 + 5 + (getReasonPhrase statusCode).length + 2 +
      ((snprintf 64 (bytes "Server: " ++ geonsWebserverInfo)).length + 2) + (headers.getD []).length + 2 =
        (responseOf statusCode headers body).head.length := by
    simp only [responseSize, responseOf] at hsize ⊢
    omega
  have hcopied := memcpy_append (responseOf statusCode headers body).head body _ rfl
  rw [← hcopied]
  simp only [sendHttpResponse]
  rw [show (responseOf statusCode headers body).reasonPhrase = getReasonPhrase statusCode from rfl,
    show (responseOf statusCode headers body).headers = headers from rfl,
    show (responseOf statusCode headers body).body = body from rfl, hheadSize, hhead]

theorem cr_notMem_getReasonPhrase (statusCode : Nat) : (13 : UInt8) ∉ getReasonPhrase statusCode := by
  have hall : ∀ p ∈ httpStatuses, (13 : UInt8) ∉ bytes p.2 := by decide +kernel
  have hunknown : (13 : UInt8) ∉ bytes "Unknown Status Code" := by decide
  unfold getReasonPhrase
  split
  · rename_i hfind
    exact hall _ (List.mem_of_find?_eq_some hfind)
  · exact hunknown

theorem length_line_le (h : call ∈ calls) (hsucceeds : HeaderCall.succeeds call) :
    call.line.length ≤ (fields (added calls)).length := by
  have hadded : (call.name, call.value) ∈ added calls :=
    List.mem_map_of_mem (List.mem_filter.mpr ⟨h, hsucceeds⟩)
  have hline := (List.singleton_sublist.mpr hadded).flatMap fun header => field header.1 header.2 ++ crlf
  rw [List.flatMap_singleton] at hline
  exact hline.length_le

theorem length_head_eq (statusCode : Nat) (calls : List HeaderCall) (body : Bytes) :
    (responseOf statusCode (block calls) body).head.length =
      (responseOf statusCode (block calls) []).head.length := by
  rw [head_eq, head_eq]

theorem counted_calls (h : Counted statusCode calls) : ∀ call ∈ calls, HeaderCall.Counted call := by
  intro call hcall
  obtain ⟨hvalues, hhead⟩ := h
  refine ⟨hvalues call hcall, fun hsucceeds => (length_line_le hcall hsucceeds).trans ?_⟩
  rw [head_eq] at hhead
  simp only [fields, List.flatMap_cons, List.length_append] at hhead ⊢
  omega

/-- The response is read back as it was meant exactly where every text is
counted by an `int`, and a call that fails leaves the block as it was. -/
theorem roundTrips_iff (hlow : 100 ≤ statusCode) (hhigh : statusCode ≤ 999)
    (hclean : ∀ call ∈ calls, Clean (HeaderCall.name call, HeaderCall.value call)) (body : Bytes) :
    (RoundTrips statusCode calls body ↔ Counted statusCode calls) ∧
      ∀ headers call headers', setHeader headers call = some (false, headers') → headers' = headers := by
  have hlt : statusCode < 1000 := Nat.lt_succ_of_le hhigh
  refine ⟨⟨?_, fun h => ?_⟩, fun headers call headers' hfailed => setHeader_failed hfailed⟩
  · rintro ⟨headers, buffer, hheaders, hbuffer, -, -⟩
    have hcalls := counted_of_setHeaders hheaders
    obtain rfl := Option.some.inj ((setHeaders_none_of_counted hcalls).symm.trans hheaders)
    refine ⟨fun call hcall => (hcalls call hcall).1, ?_⟩
    rw [← length_head_eq statusCode calls body]
    by_contra hlong
    rw [sendResponse, if_pos (Nat.lt_of_not_le hlong)] at hbuffer
    contradiction
  · have hheaders := setHeaders_none_of_counted (counted_calls h)
    have hcounted : ¬ maxInt < (responseOf statusCode (block calls) body).head.length := by
      rw [length_head_eq]
      exact Nat.not_lt_of_le h.2
    have hmessage : ∀ header ∈ (messageOf statusCode (added calls) body).headers, Clean header := by
      refine List.forall_mem_cons.mpr ⟨by decide +kernel, fun header hheader => ?_⟩
      obtain ⟨call, hcall, rfl⟩ := List.mem_map.mp hheader
      exact hclean call (List.mem_filter.mp hcall).1
    refine ⟨_, _, hheaders, if_neg hcounted, ?_, ?_⟩
    · rw [sendHttpResponse_eq hlow hlt, responseSize_eq hlow hlt, List.length_append]
    · rw [sendHttpResponse_eq hlow hlt, ← encode_eq]
      have hversion : (32 : UInt8) ∉ bytes "HTTP/1.1" ∧ (13 : UInt8) ∉ bytes "HTTP/1.1" := by decide
      exact decode_encode hversion ⟨hlow, hlt⟩ (cr_notMem_getReasonPhrase statusCode) hmessage

-- ---------------------------------------------------------------------------
-- A page, and a head of two gigabytes
-- ---------------------------------------------------------------------------

def contentType : HeaderCall := ⟨bytes "Content-Type", bytes "text/html", true, true, true⟩

/-- The call for which there is no memory adds nothing. -/
def refused : HeaderCall := ⟨bytes "Connection", bytes "Close", true, true, false⟩

instance (statusCode : Nat) (calls : List HeaderCall) : Decidable (Counted statusCode calls) :=
  inferInstanceAs (Decidable (_ ∧ _))

theorem roundTrips_page : RoundTrips 200 [contentType, refused] (bytes "<h1>GeoNS</h1>") :=
  (roundTrips_iff (by decide) (by decide) (by decide +kernel) _).1.mpr (by decide +kernel)

def longHeader (n : Nat) : HeaderCall := ⟨bytes "X", List.replicate n 97, true, true, true⟩

theorem length_line_longHeader (n : Nat) : (longHeader n).line.length = n + 5 := by
  have hname : (bytes "X").length = 1 := by decide
  simp only [HeaderCall.line, field, longHeader, crlf, List.length_append, List.length_cons,
    List.length_replicate, List.length_nil, hname]
  omega

theorem counted_longHeader (h : n + 5 ≤ maxInt) : (longHeader n).Counted := by
  refine ⟨fun _ _ => ?_, fun _ => ?_⟩
  · have hvalue : (longHeader n).value.length = n := List.length_replicate
    omega
  · rw [length_line_longHeader]
    exact h

theorem fields_longHeader (n : Nat) :
    fields (added [longHeader n, longHeader n]) = (longHeader n).line ++ (longHeader n).line := by
  simp [fields, added, HeaderCall.line, HeaderCall.succeeds, longHeader]

theorem le_length_head (statusCode n : Nat) (body : Bytes) :
    2 * n ≤ (responseOf statusCode (block [longHeader n, longHeader n]) body).head.length := by
  have hcons (header : Bytes × Bytes) (headers : List (Bytes × Bytes)) :
      fields (header :: headers) = field header.1 header.2 ++ crlf ++ fields headers := rfl
  rw [head_eq, hcons, fields_longHeader]
  simp only [List.length_append, length_line_longHeader]
  omega

/-- Two values of a gigabyte: both calls succeed, and the head is not counted. -/
theorem not_roundTrips_gigabytes :
    setHeaders none [longHeader (2 ^ 30), longHeader (2 ^ 30)] =
        some (block [longHeader (2 ^ 30), longHeader (2 ^ 30)]) ∧
      ¬ RoundTrips 200 [longHeader (2 ^ 30), longHeader (2 ^ 30)] (bytes "body") := by
  generalize hn : 2 ^ 30 = n
  have hcounted : (longHeader n).Counted := counted_longHeader (by unfold maxInt; omega)
  have hcalls : ∀ call ∈ [longHeader n, longHeader n], HeaderCall.Counted call := by
    simpa using hcounted
  have hheaders := setHeaders_none_of_counted hcalls
  refine ⟨hheaders, ?_⟩
  rintro ⟨headers, buffer, hset, hbuffer, -, -⟩
  obtain rfl := Option.some.inj (hheaders.symm.trans hset)
  have hhead := le_length_head 200 n (bytes "body")
  have hlong : maxInt <
      (responseOf 200 (block [longHeader n, longHeader n]) (bytes "body")).head.length := by
    unfold maxInt
    omega
  rw [sendResponse, if_pos hlong] at hbuffer
  contradiction

end GeoNS.Http.Response
