import GeoNS.Http.Terminated

/-!
# The header section

The header section goes from the first line break of a text to the end of its
first CRLFCRLF. Its start and its size come from two searches; what the parser
stores is compared with it, and two texts that go on differently behind it are
compared with each other.
-/

namespace GeoNS.Http.Section

open CString Headers RequestLine Terminated

-- ---------------------------------------------------------------------------
-- The head of a text
-- ---------------------------------------------------------------------------

def endOfHead : Bytes := bytes "\r\n\r\n"

theorem endOfHead_eq : endOfHead = [13, 10, 13, 10] := by decide

/-- A text that ends with its first CRLFCRLF. -/
def IsHead (head : Bytes) : Prop := ∃ i, strstr head endOfHead = some i ∧ i + 4 = head.length

/-- A section: lines, and an empty one at the end. -/
def Ended (headers : Bytes) : Prop :=
  ∃ lines, headers = lines ++ [13, 10] ∧ (lines = [] ∨ ∃ init, lines = init ++ [10])

theorem IsHead.exists_section {head : Bytes} (h : IsHead head) : ∃ line headers,
    head = line ++ 10 :: headers ∧ (10 : UInt8) ∉ line ∧ Ended headers := by
  obtain ⟨i, hfound, hlength⟩ := h
  obtain ⟨w, t, rfl, rfl⟩ := exists_of_strstr hfound
  rw [endOfHead_eq] at hlength ⊢
  have ht : t = [] := by
    simp only [List.length_append, List.length_cons, List.length_nil] at hlength
    exact List.eq_nil_of_length_eq_zero (by omega)
  subst ht
  rcases exists_word 10 w with hw | ⟨line, rest, hline, rfl⟩
  · refine ⟨w ++ [13], [13, 10], by simp, ?_, [], rfl, .inl rfl⟩
    simp [hw]
  · refine ⟨line, rest ++ [13, 10] ++ [13, 10], ?_, hline, rest ++ [13, 10], rfl, .inr ⟨rest ++ [13], ?_⟩⟩
    · simp
    · simp

theorem Ended.lookup_append {headers : Bytes} (h : Ended headers) (t headerName : Bytes) :
    getHttpHeaderValue (headers ++ t) headerName = getHttpHeaderValue headers headerName := by
  obtain ⟨lines, rfl, hlines⟩ := h
  have hsplit : ∀ t, strtok 10 (lines ++ [13, 10] ++ t) = strtok 10 lines ++ [[13]] ++ strtok 10 t := by
    intro t
    have hempty : strtok 10 ([13] ++ 10 :: t) = [13] :: strtok 10 t := by
      rw [strtok_append_cons (by decide), if_neg (by decide)]
    rcases hlines with rfl | ⟨init, rfl⟩
    · simpa using hempty
    · rw [List.append_assoc, List.append_assoc, List.append_assoc, List.singleton_append,
        strtok_append_delim, strtok_append_delim, strtok_nil, List.append_nil]
      simpa using hempty
  have hwhole := hsplit []
  rw [List.append_nil, strtok_nil, List.append_nil] at hwhole
  unfold getHttpHeaderValue
  rw [hsplit, hwhole]
  exact search_append_of_not (List.mem_append_right _ (List.mem_singleton_self _)) rfl _

-- ---------------------------------------------------------------------------
-- The offsets
-- ---------------------------------------------------------------------------

theorem requestOffsets_of_found (env : Env) {text : Bytes} (hlf : strstr text (bytes "\n") = some lf)
    (hend : strstr text endOfHead = some i) :
    requestOffsets env text = { HttpRequest.empty with
      requestLineOffset := lf % 65536
      headersOffset := (i + 4) % 65536
      headersSize := toUshort (((i + 4) % 65536 : Nat) - (lf % 65536 : Nat)) } := by
  have hend' : strstr text (bytes "\r\n\r\n") = some i := hend
  have hlf' : toUshort (lf : Int) = lf % 65536 := by
    simp only [toUshort]
    omega
  have hoffset : toUshort ((i : Int) + 4) = (i + 4) % 65536 := by
    simp only [toUshort]
    omega
  simp only [requestOffsets, hlf, hend', pointerOffset, hlf', hoffset]

theorem IsHead.requestOffsets_append {head : Bytes} (h : IsHead head) (env : Env) (t : Bytes) :
    requestOffsets env (head ++ t) = requestOffsets env head := by
  obtain ⟨line, headers, heq, hline, -⟩ := h.exists_section
  obtain ⟨i, hfound, -⟩ := h
  have hlf : strstr head (bytes "\n") = some line.length := heq ▸ strstr_word hline headers
  rw [requestOffsets_of_found env hlf hfound, requestOffsets_of_found env
    (strstr_append hlf t) (strstr_append hfound t)]

theorem IsHead.offsets {head line headers : Bytes} (h : IsHead head) (env : Env)
    (heq : head = line ++ 10 :: headers) (hline : (10 : UInt8) ∉ line) :
    (requestOffsets env head).requestLineOffset = line.length % 65536 ∧
      (requestOffsets env head).headersSize = (headers.length + 1) % 65536 := by
  obtain ⟨i, hfound, hlength⟩ := h
  have hlf : strstr head (bytes "\n") = some line.length := heq ▸ strstr_word hline headers
  have hsum : head.length = line.length + 1 + headers.length := by
    rw [heq, List.length_append, List.length_cons]
    omega
  rw [requestOffsets_of_found env hlf hfound, hlength, hsum]
  simp only [toUshort, true_and]
  omega

-- ---------------------------------------------------------------------------
-- What follows the head
-- ---------------------------------------------------------------------------

theorem IsHead.firstLine_append {head : Bytes} (h : IsHead head) (t : Bytes) :
    firstLine (head ++ t) = firstLine head := by
  obtain ⟨i, hfound, hlength⟩ := h
  obtain ⟨w, u, rfl, rfl⟩ := exists_of_strstr hfound
  have hu : u = [] := by
    rw [endOfHead_eq] at hlength
    simp only [List.length_append, List.length_cons, List.length_nil] at hlength
    exact List.eq_nil_of_length_eq_zero (by omega)
  have hsplit : ∀ t, strtok 10 (w ++ (endOfHead ++ []) ++ t) =
      strtok 10 (w ++ [13]) ++ strtok 10 (13 :: 10 :: t) := by
    intro t
    rw [← strtok_append_delim, endOfHead_eq]
    simp
  have hne : strtok 10 (w ++ [13]) ≠ [] := by
    obtain ⟨token, htoken, -⟩ := @exists_token_of_mem 10 (w ++ [13]) 13 (by simp) (by decide)
    exact List.ne_nil_of_mem htoken
  have hwhole := hsplit []
  rw [List.append_nil] at hwhole
  unfold firstLine
  rw [hu, hsplit, hwhole]
  cases hlines : strtok 10 (w ++ [13]) with
  | nil => contradiction
  | cons line lines => rfl

theorem parseRequestLine_headers (request : HttpRequest) (headers : Option Bytes) (line : Bytes) :
    parseRequestLine { request with headers } line =
      { parseRequestLine request line with headers } := by
  unfold parseRequestLine
  split
  · rfl
  · dsimp only
    split
    · rfl
    · split <;> rfl

theorem IsHead.lookup_take {head : Bytes} (h : IsHead head) (env : Env) (t headerName : Bytes) :
    getHttpHeaderValue (headersOf env (head ++ t)) headerName =
      getHttpHeaderValue (headersOf env head) headerName := by
  obtain ⟨line, headers, heq, hline, hended⟩ := h.exists_section
  obtain ⟨hstart, hsize⟩ := h.offsets env heq hline
  have hlength : head.length = line.length + 1 + headers.length := by
    rw [heq, List.length_append, List.length_cons]
    omega
  have hin : line.length % 65536 + 1 ≤ head.length := by omega
  unfold headersOf headerSection headerLimit stringAt
  rw [h.requestOffsets_append, hstart, hsize, if_pos hin, if_pos (by simp; omega),
    List.drop_append_of_le_length hin, List.take_append, List.length_drop]
  by_cases hcut : min ((headers.length + 1) % 65536) baseHttpRequestHeaderSize ≤
      head.length - (line.length % 65536 + 1)
  · rw [Nat.sub_eq_zero_of_le hcut, List.take_zero, List.append_nil]
  · -- the section is taken as a whole, from its own beginning
    have hwhole : line.length % 65536 = line.length := by omega
    have hdrop : head.drop (line.length + 1) = headers := by
      rw [heq, List.drop_length_add_append, List.drop_one, List.tail_cons]
    rw [hwhole] at hcut ⊢
    rw [hdrop, List.take_of_length_le (by rw [← hdrop, List.length_drop]; omega)]
    exact hended.lookup_append _ _

-- ---------------------------------------------------------------------------
-- The headers that are stored
-- ---------------------------------------------------------------------------

/-- `request->headers`, `none` where the request is refused for their size. -/
def storedHeaders (env : Env) (text : Bytes) : Option Bytes :=
  if headersRefused env text then none
  else (requestHead env text (requestOffsets env text)).headers

theorem Ended.lf_mem {headers : Bytes} (h : Ended headers) : (10 : UInt8) ∈ headers := by
  obtain ⟨lines, rfl, -⟩ := h
  simp

theorem IsHead.ended {line headers : Bytes} (h : IsHead (line ++ 10 :: headers))
    (hline : (10 : UInt8) ∉ line) : Ended headers := by
  obtain ⟨line', headers', heq, hline', hended⟩ := h.exists_section
  have hlength : line.length = line'.length := by
    have hword := strstr_word hline headers
    rw [heq, strstr_word hline' headers'] at hword
    exact (Option.some.inj hword).symm
  obtain ⟨-, hsame⟩ := List.append_inj heq hlength
  exact (List.cons_inj_right 10).mp hsame ▸ hended

section
variable (env : Env) {line headers : Bytes} (hline : (10 : UInt8) ∉ line)
  (hhead : IsHead (line ++ 10 :: headers)) (hlimit : headers.length ≤ baseHttpRequestHeaderSize)
  (body : Bytes)
include hline hhead hlimit

theorem IsHead.headersSize : (requestOffsets env (line ++ 10 :: headers)).headersSize = headers.length + 1 := by
  have hmax : baseHttpRequestHeaderSize = 1023 := rfl
  obtain ⟨-, hsize⟩ := hhead.offsets env rfl hline
  rwa [Nat.mod_eq_of_lt (by omega)] at hsize

theorem IsHead.headersRefused_iff :
    headersRefused env (line ++ 10 :: headers ++ body) = true ↔
      headers.length = baseHttpRequestHeaderSize ∧ env.config.trimLargeHeaders = false := by
  have hsize := hhead.headersSize env hline hlimit
  unfold headersRefused
  rw [hhead.requestOffsets_append, hsize]
  simp only [Bool.and_eq_true, decide_eq_true_eq, Bool.not_eq_true']
  exact and_congr_left fun _ => by omega

theorem IsHead.headersOf_append :
    headersOf env (line ++ 10 :: headers ++ body) =
      ((line ++ 10 :: headers ++ body).drop (line.length % 65536 + 1)).take
        (min (headers.length + 1) baseHttpRequestHeaderSize) := by
  obtain ⟨hstart, -⟩ := hhead.offsets env rfl hline
  have hsize := hhead.headersSize env hline hlimit
  unfold headersOf headerSection headerLimit stringAt
  rw [hhead.requestOffsets_append, hstart, hsize, if_pos]
  simp only [List.length_append, List.length_cons]
  omega

/-- Behind a request line that its offset can count, one byte more than the section is
taken, or as many as the limit. -/
theorem IsHead.headersOf_short (hshort : line.length < 65536) :
    headersOf env (line ++ 10 :: headers ++ body) =
      if headers.length < baseHttpRequestHeaderSize then headers ++ body.take 1 else headers := by
  have hdrop : (line ++ 10 :: headers ++ body).drop (line.length + 1) = headers ++ body := by
    rw [List.append_assoc, List.drop_length_add_append, List.cons_append, List.drop_one, List.tail_cons]
  rw [hhead.headersOf_append env hline hlimit, Nat.mod_eq_of_lt hshort, hdrop, List.take_append]
  split
  case isTrue hlt =>
    have hmin : min (headers.length + 1) baseHttpRequestHeaderSize = headers.length + 1 := by omega
    rw [hmin, List.take_of_length_le (Nat.le_succ _), Nat.add_sub_cancel_left]
  case isFalse hfull =>
    have hmin : min (headers.length + 1) baseHttpRequestHeaderSize = headers.length := by omega
    rw [hmin, List.take_length, Nat.sub_self, List.take_zero, List.append_nil]

theorem IsHead.headersOf_long (hlong : ¬ line.length < 65536) :
    headersOf env (line ++ 10 :: headers ++ body) ≠ headers := by
  intro heq
  have hmax : baseHttpRequestHeaderSize = 1023 := rfl
  have hlf := (hhead.ended hline).lf_mem
  rw [← heq, hhead.headersOf_append env hline hlimit, List.append_assoc,
    List.drop_append_of_le_length (by omega),
    List.take_append_of_le_length (by rw [List.length_drop]; omega)] at hlf
  exact hline (List.mem_of_mem_drop (List.mem_of_mem_take hlf))

end

/-- A section within the limit is stored as it is only where nothing follows it,
or where the limit cuts what follows. -/
theorem storedHeaders_eq_iff (env : Env) {buffer line headers body : Bytes}
    (htext : cstr buffer = line ++ 10 :: headers ++ body) (hline : (10 : UInt8) ∉ line)
    (hhead : IsHead (line ++ 10 :: headers)) (hlimit : headers.length ≤ baseHttpRequestHeaderSize) :
    storedHeaders env (cstr buffer) = some headers ↔
      line.length < 65536 ∧ (headers.length < baseHttpRequestHeaderSize ∧ body = [] ∨
        headers.length = baseHttpRequestHeaderSize ∧ env.config.trimLargeHeaders = true) := by
  have hrefused := hhead.headersRefused_iff env hline hlimit body
  rw [htext]
  unfold storedHeaders
  rw [requestHead_headers_eq]
  change (if _ then none else some (headersOf env _)) = some headers ↔ _
  by_cases hshort : line.length < 65536
  · rw [and_iff_right hshort, hhead.headersOf_short env hline hlimit body hshort]
    rcases Nat.lt_or_eq_of_le hlimit with hlt | hfull
    · have hkept : ¬ headersRefused env (line ++ 10 :: headers ++ body) := fun h =>
        absurd (hrefused.mp h).1 (Nat.ne_of_lt hlt)
      rw [if_neg hkept, if_pos hlt, Option.some.injEq, List.append_right_eq_self, List.take_eq_nil_iff]
      simp [hlt, Nat.ne_of_lt hlt]
    · cases htrim : env.config.trimLargeHeaders with
      | true =>
        rw [if_neg (by rw [hrefused]; simp [htrim])]
        simp [hfull]
      | false =>
        rw [if_pos (hrefused.mpr ⟨hfull, htrim⟩)]
        simp [hfull]
  · refine iff_of_false (fun heq => ?_) fun h => hshort h.1
    split at heq
    · contradiction
    · exact hhead.headersOf_long env hline hlimit body hshort (Option.some.inj heq)

def postLine : Bytes := bytes "POST /nodes HTTP/1.1\r"

def postHeaders : Bytes := bytes "Content-Length: 5\r\n\r\n"

theorem isHead_post : IsHead (postLine ++ 10 :: postHeaders) :=
  ⟨39, by decide +kernel, by decide +kernel⟩

theorem storedHeaders_post :
    storedHeaders .ok (cstr (postLine ++ 10 :: postHeaders ++ [0])) = some postHeaders :=
  (storedHeaders_eq_iff .ok (by decide +kernel) (by decide) isHead_post (by decide)).mpr
    ⟨by decide, .inl ⟨by decide, rfl⟩⟩

/-- One byte of the body is stored with the headers. -/
theorem storedHeaders_post_body :
    let buffer := postLine ++ 10 :: postHeaders ++ bytes "hello"
    strstr buffer endOfHead = some 39 ∧ postHeaders.length ≤ baseHttpRequestHeaderSize ∧
      storedHeaders .ok (cstr buffer) = some (postHeaders ++ bytes "h") ∧
      storedHeaders .ok (cstr buffer) ≠ some postHeaders := by
  decide +kernel

-- ---------------------------------------------------------------------------
-- Two bodies
-- ---------------------------------------------------------------------------

/-- What a server can see of the head of a request. -/
structure SameHead (a b : HttpRequest) : Prop where
  method : a.method = b.method
  uri : a.uri = b.uri
  version : a.version = b.version
  bodySize : a.bodySize = b.bodySize
  lookup : ∀ headerName, getHttpHeaderValue (a.headers.getD []) headerName =
    getHttpHeaderValue (b.headers.getD []) headerName

theorem SameHead.nameMemory {a b : HttpRequest} (h : SameHead a b) : a.nameMemory = b.nameMemory := by
  rw [HttpRequest.nameMemory, HttpRequest.nameMemory, h.method, h.uri]

theorem SameHead.upperMethod {a b : HttpRequest} (h : SameHead a b) :
    SameHead a.upperMethod b.upperMethod := by
  have hmemory := h.nameMemory
  refine ⟨?_, ?_, h.version, h.bodySize, h.lookup⟩
  · simp only [HttpRequest.upperMethod, hmemory, h.method]
  · simp only [HttpRequest.upperMethod, hmemory]

theorem contentLength_congr {a b : Bytes}
    (h : ∀ headerName, getHttpHeaderValue a headerName = getHttpHeaderValue b headerName) :
    contentLength a = contentLength b := by
  unfold contentLength
  rw [h]

theorem receiveRequest_same (env : Env) (head : HttpRequest) {a b : Bytes}
    (h : ∀ headerName, getHttpHeaderValue a headerName = getHttpHeaderValue b headerName)
    (n₁ n₂ : Int) :
    let p := receiveRequest env { head with headers := some a } n₁
    let q := receiveRequest env { head with headers := some b } n₂
    statusCodes p.calls = statusCodes q.calls ∧ Option.Rel SameHead p.request q.request := by
  have hlength := contentLength_congr h
  unfold receiveRequest
  dsimp only [Option.getD_some]
  rw [hlength]
  split
  · exact ⟨rfl, .some ⟨rfl, rfl, rfl, rfl, h⟩⟩
  split
  · exact ⟨rfl, .some ⟨rfl, rfl, rfl, rfl, h⟩⟩
  split
  · exact ⟨by simp, .none⟩
  split
  · exact ⟨rfl, .some ⟨rfl, rfl, rfl, rfl, h⟩⟩
  · refine ⟨?_, .none⟩
    rw [statusCodes_cons_of_not rfl, statusCodes_cons_of_not rfl]
    simp

theorem parse_same_of_lookup (env : Env) (beyond₁ beyond₂ : Nat → Bytes) {text₁ text₂ : Bytes}
    (hoffsets : requestOffsets env text₁ = requestOffsets env text₂) (hline : firstLine text₁ = firstLine text₂)
    (hlookup : ∀ headerName, getHttpHeaderValue (headersOf { env with beyond := beyond₁ } text₁) headerName =
      getHttpHeaderValue (headersOf { env with beyond := beyond₂ } text₂) headerName) (n₁ n₂ : Int) :
    let p := parseHttpRequest { env with beyond := beyond₁ } text₁ n₁
    let q := parseHttpRequest { env with beyond := beyond₂ } text₂ n₂
    statusCodes p.calls = statusCodes q.calls ∧ Option.Rel SameHead p.request q.request := by
  let head : HttpRequest := parseRequestLine { requestOffsets env text₁ with
    headersSize := min (requestOffsets env text₁).headersSize baseHttpRequestHeaderSize }
    (requestLine env (firstLine text₁))
  have hhead₁ : requestHead { env with beyond := beyond₁ } text₁ (requestOffsets env text₁) =
      { head with headers := some (headersOf { env with beyond := beyond₁ } text₁) } := by
    rw [requestHead_eq, ← parseRequestLine_headers]
    rfl
  have hhead₂ : requestHead { env with beyond := beyond₂ } text₂ (requestOffsets env text₁) =
      { head with headers := some (headersOf { env with beyond := beyond₂ } text₂) } := by
    rw [requestHead_eq, ← parseRequestLine_headers, hoffsets, ← hline]
    unfold headersOf headerSection headerLimit
    rfl
  obtain ⟨hcodes, hrequest⟩ := receiveRequest_same env head hlookup n₁ n₂
  have hsame₁ : requestOffsets { env with beyond := beyond₁ } text₁ = requestOffsets env text₁ := rfl
  have hsame₂ : requestOffsets { env with beyond := beyond₂ } text₂ = requestOffsets env text₁ := hoffsets.symm
  unfold parseHttpRequest
  dsimp only
  rw [hsame₁, hsame₂, hhead₁, hhead₂]
  split
  · exact ⟨rfl, .none⟩
  · refine ⟨?_, hrequest⟩
    dsimp only
    rw [statusCodes_cons_of_not rfl, statusCodes_cons_of_not rfl, statusCodes_cons_of_not rfl,
      statusCodes_cons_of_not rfl]
    exact hcodes

theorem IsHead.parse_same {head : Bytes} (h : IsHead head) (env : Env) (t₁ t₂ : Bytes) (n₁ n₂ : Int) :
    let p := parseHttpRequest env (head ++ t₁) n₁
    let q := parseHttpRequest env (head ++ t₂) n₂
    statusCodes p.calls = statusCodes q.calls ∧ Option.Rel SameHead p.request q.request := by
  refine parse_same_of_lookup env env.beyond env.beyond ?_ ?_ (fun headerName => ?_) n₁ n₂
  · rw [h.requestOffsets_append, h.requestOffsets_append]
  · rw [h.firstLine_append, h.firstLine_append]
  · rw [h.lookup_take, h.lookup_take]

end GeoNS.Http.Section
