import GeoNS.Http.Response
import GeoNS.Http.Server

/-!
# Declared lengths

The number of a `Content-Length` header is formatted apart from the body that is
sent. A file's size is printed as a `size_t`, the size of a listing or a page as an
`int`.
-/

namespace GeoNS.Http.Lengths

open CString HttpMessage Response

structure Memory where
  memalloc : Nat → Bool
  grow : Nat → Bool
  response : Bool

def headerCalls (memory : Memory) (contentType contentLength : Bytes) : List HeaderCall :=
  [⟨bytes "Content-Type", contentType, true, memory.memalloc 0, memory.grow 0⟩,
    ⟨bytes "Content-Length", contentLength, true, memory.memalloc 1, memory.grow 1⟩,
    ⟨bytes "Connection", bytes "Close", true, memory.memalloc 2, memory.grow 2⟩]

/-- What is answered with a page: a file of the type and size, a listing, or a
built-in route. -/
inductive Branch
  | file (env : Env) (mimeType : Option Bytes) (size : Nat)
  | listing (entries : Option Bytes)
  | home
  | about

def Branch.body : Branch → Bytes
  | .file env _ size => readFile env size
  | .listing entries => entries.getD (bytes "No files or directories found.\n")
  | .home => bytes "<h1>Welcome to GeoNS</h1>"
  | .about => bytes "<h1>Welcome to about page!</h1>"

def Branch.contentType : Branch → Bytes
  | .file _ mimeType _ => mimeType.getD (bytes "application/octet-stream")
  | _ => bytes "text/html"

/-- `%zu` of a file's size, `%d` of any other. -/
def Branch.contentLength : Branch → Bytes
  | .file _ _ size => dec size
  | b => decInt b.body.length

def Branch.calls (memory : Memory) (b : Branch) : List HeaderCall :=
  headerCalls memory b.contentType b.contentLength

/-- The buffer for the response, whose size is a `size_t`: nothing is sent without
it, and `none` is a write outside of it. -/
def transmit (memalloc : Bool) (response : HttpResponse) : Option (Option Bytes) :=
  if !memalloc then some none
  else if 2 ^ 64 ≤ responseSize response + 1 then none
  else (sendResponse response).map some

/-- Whatever is sent ends in as many bytes behind its head as a `Content-Length` in
it says. -/
def Declares (memory : Memory) (b : Branch) : Prop :=
  ∃ headers sent, setHeaders none (b.calls memory) = some headers ∧
    transmit memory.response (responseOf 200 headers b.body) = some sent ∧
    ∀ wire, sent = some wire → ∃ body, wire = (responseOf 200 headers b.body).head ++ body ∧
      ∀ value, (bytes "Content-Length", value) ∈ added (b.calls memory) → value = dec body.length

def Counts (memory : Memory) (b : Branch) : Prop :=
  (responseOf 200 (block (b.calls memory)) b.body).head.length ≤ maxInt ∧
    responseSize (responseOf 200 (block (b.calls memory)) b.body) + 1 < 2 ^ 64

/-- The size of a listing is an `int`. -/
def Branch.Prints : Branch → Prop
  | .listing entries => (Branch.listing entries).body.length < 2 ^ 31
  | _ => True

/-- What is formatted is counted, and where the response and its length have their
memory, the length is printed. -/
def Branch.Fits (memory : Memory) (b : Branch) : Prop :=
  (∀ call ∈ b.calls memory, HeaderCall.Counted call) ∧
    (memory.response → Counts memory b ∧ (memory.memalloc 1 → memory.grow 1 → b.Prints))

-- ---------------------------------------------------------------------------
-- Numbers
-- ---------------------------------------------------------------------------

theorem bmod_eq (n : Nat) : Int.bmod n (2 ^ 32) =
    if (n : Int) % 4294967296 < 2147483648 then (n : Int) % 4294967296
    else (n : Int) % 4294967296 - 4294967296 := by
  rfl

theorem decInt_eq_dec_iff (n : Nat) : decInt n = dec n ↔ n < 2 ^ 31 := by
  have hbmod := bmod_eq n
  unfold decInt
  generalize Int.bmod n (2 ^ 32) = i at hbmod ⊢
  dsimp only
  split
  case isTrue hneg =>
    refine iff_of_false (fun h => ?_) ?_
    · -- a minus is no digit
      have hdigit := isdigit_of_mem_dec (n := n) (c := 45) (h ▸ List.mem_cons_self)
      exact absurd hdigit (by decide)
    · split at hbmod <;> omega
  case isFalse hpos =>
    rw [dec_injective.eq_iff]
    split at hbmod <;> omega

theorem length_readFile (env : Env) (size : Nat) : (readFile env size).length = size := by
  simp only [readFile, List.length_append, List.length_take, List.length_replicate]
  omega

theorem contentLength_eq_iff (b : Branch) : b.contentLength = dec b.body.length ↔ b.Prints := by
  cases b with
  | file env mimeType size =>
    rw [Branch.body, length_readFile]
    exact iff_of_true rfl trivial
  | listing entries => exact decInt_eq_dec_iff (Branch.listing entries).body.length
  | home =>
    have hpage : Branch.home.body.length < 2 ^ 31 := by decide
    exact iff_of_true ((decInt_eq_dec_iff Branch.home.body.length).mpr hpage) trivial
  | about =>
    have hpage : Branch.about.body.length < 2 ^ 31 := by decide
    exact iff_of_true ((decInt_eq_dec_iff Branch.about.body.length).mpr hpage) trivial

-- ---------------------------------------------------------------------------
-- One response
-- ---------------------------------------------------------------------------

theorem mem_added_iff (memory : Memory) (contentType contentLength : Bytes) :
    (bytes "Content-Length", value) ∈ added (headerCalls memory contentType contentLength) ↔
      (memory.memalloc 1 ∧ memory.grow 1) ∧ value = contentLength := by
  have htype : bytes "Content-Length" ≠ bytes "Content-Type" := by decide
  have hconnection : bytes "Content-Length" ≠ bytes "Connection" := by decide
  simp only [added, headerCalls, List.mem_map, List.mem_filter, List.mem_cons, List.not_mem_nil, or_false,
    Prod.mk.injEq]
  constructor
  · rintro ⟨call, ⟨hcall, hsucceeds⟩, hname, rfl⟩
    rcases hcall with rfl | rfl | rfl
    · exact absurd hname.symm htype
    · exact ⟨by simpa [HeaderCall.succeeds] using hsucceeds, rfl⟩
    · exact absurd hname.symm hconnection
  · rintro ⟨⟨hmemalloc, hgrow⟩, rfl⟩
    exact ⟨_, ⟨.inr (.inl rfl), by simp [HeaderCall.succeeds, hmemalloc, hgrow]⟩, rfl, rfl⟩

/-- What `send_http_response` sends is the head and the body. -/
theorem transmit_eq (headers : Option Bytes) (body : Bytes) :
    transmit true (responseOf 200 headers body) =
      if (responseOf 200 headers body).head.length ≤ maxInt ∧
          responseSize (responseOf 200 headers body) + 1 < 2 ^ 64 then
        some (some ((responseOf 200 headers body).head ++ body))
      else none := by
  unfold transmit sendResponse
  rw [sendHttpResponse_eq (by decide) (by decide), if_neg (by decide)]
  by_cases hsize : responseSize (responseOf 200 headers body) + 1 < 2 ^ 64
  · by_cases hhead : (responseOf 200 headers body).head.length ≤ maxInt
    · rw [if_neg (Nat.not_le_of_lt hsize), if_neg (Nat.not_lt_of_le hhead), if_pos ⟨hhead, hsize⟩, Option.map_some]
    · have hnot : ¬ ((responseOf 200 headers body).head.length ≤ maxInt ∧
          responseSize (responseOf 200 headers body) + 1 < 2 ^ 64) := fun h => hhead h.1
      rw [if_neg (Nat.not_le_of_lt hsize), if_pos (Nat.lt_of_not_le hhead), if_neg hnot, Option.map_none]
  · have hnot : ¬ ((responseOf 200 headers body).head.length ≤ maxInt ∧
        responseSize (responseOf 200 headers body) + 1 < 2 ^ 64) := fun h => hsize h.2
    rw [if_pos (Nat.le_of_not_lt hsize), if_neg hnot]

theorem fits_of_declares (h : Declares memory b) : b.Fits memory := by
  obtain ⟨headers, sent, hheaders, hsent, hwire⟩ := h
  have hcalls := counted_of_setHeaders hheaders
  obtain rfl := Option.some.inj ((setHeaders_none_of_counted hcalls).symm.trans hheaders)
  refine ⟨hcalls, fun hresponse => ?_⟩
  rw [hresponse, transmit_eq] at hsent
  split at hsent
  case isFalse => contradiction
  case isTrue hcounts =>
    refine ⟨hcounts, fun hmemalloc hgrow => ?_⟩
    obtain ⟨body, hbody, hlength⟩ := hwire _ (Option.some.inj hsent).symm
    obtain rfl := List.append_cancel_left hbody
    exact (contentLength_eq_iff b).mp
      (hlength b.contentLength ((mem_added_iff _ _ _).mpr ⟨⟨hmemalloc, hgrow⟩, rfl⟩))

theorem declares_of_fits (h : b.Fits memory) : Declares memory b := by
  obtain ⟨hcalls, hfits⟩ := h
  have hheaders := setHeaders_none_of_counted hcalls
  cases hresponse : memory.response with
  | false => exact ⟨_, none, hheaders, by rw [hresponse]; rfl, fun wire h => absurd h (by simp)⟩
  | true =>
    obtain ⟨hcounts, hprints⟩ := hfits hresponse
    have hsent := (transmit_eq (block (b.calls memory)) b.body).trans (if_pos hcounts)
    refine ⟨_, _, hheaders, by rw [hresponse, hsent], fun wire hwire => ?_⟩
    refine ⟨b.body, (Option.some.inj hwire).symm, fun value hvalue => ?_⟩
    obtain ⟨⟨hmemalloc, hgrow⟩, rfl⟩ := (mem_added_iff _ _ _).mp hvalue
    exact (contentLength_eq_iff b).mpr (hprints hmemalloc hgrow)

theorem declares_iff (memory : Memory) (b : Branch) : Declares memory b ↔ b.Fits memory :=
  ⟨fits_of_declares, declares_of_fits⟩

-- ---------------------------------------------------------------------------
-- The branches of the callback
-- ---------------------------------------------------------------------------

def enough : Memory := ⟨fun _ => true, fun _ => true, true⟩

def Branch.response (b : Branch) : HttpResponse := responseOf 200 (block (b.calls enough)) b.body

theorem block_headerCalls (contentType contentLength : Bytes) :
    block (headerCalls enough contentType contentLength) = responseHeaders contentType contentLength := by
  have hadded : added (headerCalls enough contentType contentLength) =
      [(bytes "Content-Type", contentType), (bytes "Content-Length", contentLength),
        (bytes "Connection", bytes "Close")] := rfl
  have hcolon : bytes ": " = [58, 32] := by decide
  have hcrlf : bytes "\r\n" = crlf := by decide
  rw [block, hadded, if_neg (List.cons_ne_nil _ _)]
  simp [responseHeaders, setHttpResponseHeader, fields, field, hcolon, hcrlf]

def responses (calls : List Call) : List HttpResponse :=
  calls.filterMap fun
    | .send response => if response.headers.isSome then some response else none
    | _ => none

@[simp] theorem responses_append (calls calls' : List Call) :
    responses (calls ++ calls') = responses calls ++ responses calls' := List.filterMap_append

@[simp] theorem responses_nil : responses [] = [] := rfl

@[simp] theorem responses_acquire (r : Resource) (calls : List Call) :
    responses (.acquire r :: calls) = responses calls := rfl

@[simp] theorem responses_release (r : Resource) (calls : List Call) :
    responses (.release r :: calls) = responses calls := rfl

@[simp] theorem responses_fopen (path : Bytes) (calls : List Call) :
    responses (.fopen path :: calls) = responses calls := rfl

@[simp] theorem responses_opendir (path : Bytes) (calls : List Call) :
    responses (.opendir path :: calls) = responses calls := rfl

@[simp] theorem responses_killHttpConnection (request : HttpRequest) :
    responses (killHttpConnection request) = [] := by
  unfold killHttpConnection
  split <;> rfl

@[simp] theorem responses_sendHttpStatus (statusCode : Nat) (body : Bytes) (headers : Option Bytes) :
    responses (sendHttpStatus statusCode body headers) =
      if headers.isSome then [responseOf statusCode headers body] else [] := by
  cases headers <;> rfl

theorem responses_sendPage (contentType contentLength : Bytes) (body : Bytes) :
    responses (sendHttpStatus 200 body (responseHeaders contentType contentLength)) =
      [responseOf 200 (block (headerCalls enough contentType contentLength)) body] := by
  have hheaders : (responseHeaders contentType contentLength).isSome := rfl
  rw [responses_sendHttpStatus, if_pos hheaders, block_headerCalls]

theorem responses_getFileSize (env : Env) (filePath : Bytes) : responses (getFileSize env filePath).1 = [] := by
  unfold getFileSize
  split <;> rfl

theorem responses_getMimeType (env : Env) (filePath : Bytes) : responses (getMimeType env filePath).1 = [] := by
  unfold getMimeType
  split
  · rfl
  split
  · rfl
  split <;> rfl

theorem serveFile_responses (env : Env) (request : HttpRequest) (filePath : Bytes) :
    ∀ response ∈ responses (serveFile env request filePath).calls,
      ∃ mimeType size, response = (Branch.file env mimeType size).response := by
  rintro response hresponse
  have hsize := responses_getFileSize env filePath
  have hmime := responses_getMimeType env filePath
  unfold serveFile at hresponse
  split at hresponse
  · simp at hresponse
  dsimp only at hresponse
  split at hresponse
  · simp [hsize] at hresponse
  refine ⟨(getMimeType env filePath).2, (getFileSize env filePath).2, ?_⟩
  split at hresponse
  all_goals
    simp only [responses_append, responses_fopen, responses_acquire, responses_release, responses_nil, hsize, hmime,
      responses_killHttpConnection, responses_sendPage, List.nil_append, List.append_nil,
      List.mem_singleton] at hresponse
    exact hresponse

theorem serveDirectory_responses (env : Env) (request : HttpRequest) (filePath : Bytes) :
    ∀ response ∈ responses (serveDirectory env request filePath).calls,
      ∃ entries, env.entries = some entries ∧ response = (Branch.listing entries).response := by
  rintro response hresponse
  unfold serveDirectory at hresponse
  split at hresponse
  case h_1 => simp at hresponse
  case h_2 entries hentries =>
    refine ⟨entries, hentries, ?_⟩
    simp only [responses_append, responses_opendir, responses_acquire, responses_release, responses_nil,
      responses_killHttpConnection, responses_sendPage, List.append_nil, List.mem_singleton] at hresponse
    exact hresponse

theorem builtin_responses (request : HttpRequest) (params : StringMap) :
    responses (callbackHome request params) = [Branch.home.response] ∧
      responses (callbackAbout request params) = [Branch.about.response] ∧
      responses (test request params) = [Branch.about.response] := by
  have hpage (body : Bytes) : responses (sendPage body request) =
      [responseOf 200 (block (headerCalls enough (bytes "text/html") (decInt body.length))) body] := by
    simp only [sendPage, responses_append, responses_acquire, responses_sendPage, responses_killHttpConnection,
      List.append_nil]
  refine ⟨hpage _, hpage _, ?_⟩
  unfold test
  split
  · exact hpage _
  · exact hpage _

/-- A listing of 2^31 bytes is declared as -2147483648. -/
theorem not_declares_twoGigabytes :
    ¬ Declares enough (.listing (some (List.replicate (2 ^ 31) 97))) := by
  generalize hn : 2 ^ 31 = n
  intro h
  have hprints : (List.replicate n (97 : UInt8)).length < 2 ^ 31 := ((fits_of_declares h).2 rfl).2 rfl rfl
  rw [List.length_replicate, hn] at hprints
  exact Nat.lt_irrefl n hprints

end GeoNS.Http.Lengths
