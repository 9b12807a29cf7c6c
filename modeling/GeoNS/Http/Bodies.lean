import GeoNS.Http.Section

/-!
# Two bodies

Two buffers have one head, up to its CRLFCRLF, and different bodies. A NUL in the head
hides the CRLFCRLF from the searches, and one before the first line break hides that,
too. The headers are then taken from where the address of the buffer says, which may
be in the body.
-/

namespace GeoNS.Http.Bodies

open CString Headers RequestLine Terminated Section

/-- The memory behind a string of the buffer: what is in the buffer, and then what the
environment has. -/
def around (env : Env) (buffer : Bytes) : Env :=
  { env with beyond := fun offset =>
    if offset ≤ buffer.length then cstr (buffer.drop offset) else env.beyond offset }

def parseBuffer (env : Env) (buffer : Bytes) (bufferSize : Int) : Parsed :=
  parseHttpRequest (around env buffer) (cstr buffer) bufferSize

/-- Whatever follows the head, the request is refused alike or has one head. -/
def BodyIndependent (env : Env) (head : Bytes) : Prop :=
  ∀ body₁ body₂ n₁ n₂,
    let p := parseBuffer env (head ++ body₁) n₁
    let q := parseBuffer env (head ++ body₂) n₂
    statusCodes p.calls = statusCodes q.calls ∧ Option.Rel SameHead p.request q.request

def strayOffset (env : Env) : Nat := toUshort (-env.address) + 1

-- ---------------------------------------------------------------------------
-- Strings in a buffer
-- ---------------------------------------------------------------------------

theorem drop_cstr {mem : Bytes} {i : Nat} (h : i ≤ (cstr mem).length) : (cstr mem).drop i = cstr (mem.drop i) := by
  induction i generalizing mem with
  | zero => rfl
  | succ i ih =>
    cases mem with
    | nil => rfl
    | cons c cs =>
      by_cases hc : c = 0
      · simp [cstr, hc] at h
      · have hcons : cstr (c :: cs) = c :: cstr cs := by simp [cstr, hc]
        rw [hcons, List.length_cons] at h
        rw [hcons, List.drop_succ_cons, List.drop_succ_cons]
        exact ih (Nat.le_of_succ_le_succ h)

theorem stringAt_around (env : Env) (buffer : Bytes) (i : Nat) :
    stringAt (around env buffer) (cstr buffer) i =
      if i ≤ buffer.length then cstr (buffer.drop i) else env.beyond i := by
  unfold stringAt
  split
  case isTrue hi => rw [drop_cstr hi, if_pos (hi.trans (length_cstr_le buffer))]
  case isFalse => rfl

theorem stringAt_of_le {text : Bytes} {i : Nat} (h : i ≤ text.length) (env env' : Env) :
    stringAt env text i = stringAt env' text i := by
  rw [stringAt, if_pos h, stringAt, if_pos h]

theorem headersOf_around (env : Env) {text : Bytes} (hlf : (10 : UInt8) ∈ text) (buffer : Bytes) :
    headersOf (around env buffer) text = headersOf env text := by
  obtain ⟨line, rest, rfl, hline⟩ := List.eq_append_cons_of_mem hlf
  have hfound : strstr (line ++ 10 :: rest) (bytes "\n") = some line.length := strstr_word hline rest
  have hoffset : (requestOffsets env (line ++ 10 :: rest)).requestLineOffset = toUshort (line.length : Int) := by
    simp only [requestOffsets, hfound, pointerOffset]
  have hin : (requestOffsets env (line ++ 10 :: rest)).requestLineOffset + 1 ≤ (line ++ 10 :: rest).length := by
    rw [hoffset, toUshort, List.length_append, List.length_cons]
    omega
  exact congrArg (List.take _) (stringAt_of_le hin _ _)

-- ---------------------------------------------------------------------------
-- Heads whose first line break is found
-- ---------------------------------------------------------------------------

theorem independent_of_lf {head : Bytes} (hhead : IsHead head) (hlf : (10 : UInt8) ∈ cstr head) (env : Env) :
    BodyIndependent env head := by
  intro body₁ body₂ n₁ n₂
  unfold parseBuffer
  by_cases hzero : (0 : UInt8) ∈ head
  · rw [cstr_append_of_mem hzero, cstr_append_of_mem hzero]
    refine parse_same_of_lookup env _ _ rfl rfl (fun headerName => ?_) n₁ n₂
    change getHttpHeaderValue (headersOf (around env _) _) _ = getHttpHeaderValue (headersOf (around env _) _) _
    rw [headersOf_around env hlf, headersOf_around env hlf]
  · rw [cstr_append_of_notMem hzero, cstr_append_of_notMem hzero]
    rw [cstr_eq_self hzero] at hlf
    refine parse_same_of_lookup env _ _ ?_ ?_ (fun headerName => ?_) n₁ n₂
    · rw [hhead.requestOffsets_append, hhead.requestOffsets_append]
    · rw [hhead.firstLine_append, hhead.firstLine_append]
    · change getHttpHeaderValue (headersOf (around env _) _) _ = getHttpHeaderValue (headersOf (around env _) _) _
      rw [headersOf_around env (List.mem_append_left _ hlf), headersOf_around env (List.mem_append_left _ hlf),
        hhead.lookup_take, hhead.lookup_take]

-- ---------------------------------------------------------------------------
-- Heads whose line breaks are hidden
-- ---------------------------------------------------------------------------

theorem requestOffsets_hidden (env : Env) {text : Bytes} (hlf : (10 : UInt8) ∉ text) :
    requestOffsets env text = { HttpRequest.empty with
      requestLineOffset := toUshort (-env.address)
      headersOffset := toUshort (-env.address + 4)
      headersSize := 4 } := by
  have hnone (pat : Bytes) (hpat : (10 : UInt8) ∈ pat) : strstr text pat = none := by
    rw [← Option.not_isSome_iff_eq_none, strstr_isSome_iff]
    exact fun hin => hlf (hin.subset hpat)
  have hline : strstr text (bytes "\n") = none := hnone _ (by decide)
  have hend : strstr text (bytes "\r\n\r\n") = none := hnone _ (by decide)
  have hsize : toUshort ((toUshort (-env.address + 4) : Nat) - (toUshort (-env.address) : Nat)) = 4 := by
    unfold toUshort
    omega
  simp only [requestOffsets, hline, hend, pointerOffset, hsize]

theorem headersOf_hidden (env : Env) {buffer : Bytes} (hlf : (10 : UInt8) ∉ cstr buffer) :
    headersOf (around env buffer) (cstr buffer) =
      (if strayOffset env ≤ buffer.length then cstr (buffer.drop (strayOffset env))
        else env.beyond (strayOffset env)).take 4 := by
  unfold headersOf headerSection headerLimit
  rw [requestOffsets_hidden _ hlf, stringAt_around]
  rfl

theorem hidden_append {head : Bytes} (hlf : (10 : UInt8) ∉ cstr head) (hzero : (0 : UInt8) ∈ head) (body : Bytes) :
    (10 : UInt8) ∉ cstr (head ++ body) := by
  rwa [cstr_append_of_mem hzero]

theorem drop_ended {head : Bytes} (h : IsHead head) {i : Nat} (hi : i + 2 ≤ head.length)
    (hlt : (head.drop i).length < 4) : Ended (head.drop i) := by
  obtain ⟨j, hfound, hlength⟩ := h
  obtain ⟨w, t, rfl, rfl⟩ := exists_of_strstr hfound
  rw [endOfHead_eq] at hlength hi hlt ⊢
  simp only [List.length_append, List.length_drop, List.length_cons, List.length_nil] at hlength hi hlt
  have ht : t = [] := List.eq_nil_of_length_eq_zero (by omega)
  subst ht
  obtain rfl | rfl : i = w.length + 1 ∨ i = w.length + 2 := by
    simp only [List.length_nil] at hi hlt
    omega
  · rw [List.drop_length_add_append]
    exact ⟨[10], rfl, .inr ⟨[], rfl⟩⟩
  · rw [List.drop_length_add_append]
    exact ⟨[], rfl, .inl rfl⟩

theorem lookup_stray {head : Bytes} (h : IsHead head) {i : Nat} (hi : i + 2 ≤ head.length)
    (body headerName : Bytes) :
    getHttpHeaderValue ((cstr ((head ++ body).drop i)).take 4) headerName =
      getHttpHeaderValue ((cstr (head.drop i)).take 4) headerName := by
  rw [List.drop_append_of_le_length (by omega)]
  by_cases hzero : (0 : UInt8) ∈ head.drop i
  · rw [cstr_append_of_mem hzero]
  rw [cstr_append_of_notMem hzero, cstr_eq_self hzero]
  rcases Nat.lt_or_ge (head.drop i).length 4 with hlt | hge
  · rw [List.take_append, List.take_of_length_le (Nat.le_of_lt hlt)]
    exact (drop_ended h hi hlt).lookup_append _ _
  · rw [List.take_append_of_le_length hge]

theorem independent_of_stray {head : Bytes} (hhead : IsHead head) (hlf : (10 : UInt8) ∉ cstr head)
    (hzero : (0 : UInt8) ∈ head) {env : Env} (hstray : strayOffset env + 2 ≤ head.length) :
    BodyIndependent env head := by
  intro body₁ body₂ n₁ n₂
  have hin (body : Bytes) : strayOffset env ≤ (head ++ body).length := by
    rw [List.length_append]
    omega
  have htext (body : Bytes) : cstr (head ++ body) = cstr head := cstr_append_of_mem hzero
  refine parse_same_of_lookup env _ _ (by rw [htext, htext]) (by rw [htext, htext]) (fun headerName => ?_) n₁ n₂
  change getHttpHeaderValue (headersOf (around env _) _) _ = getHttpHeaderValue (headersOf (around env _) _) _
  rw [headersOf_hidden env (hidden_append hlf hzero body₁), headersOf_hidden env (hidden_append hlf hzero body₂),
    if_pos (hin body₁), if_pos (hin body₂), lookup_stray hhead hstray, lookup_stray hhead hstray]

-- ---------------------------------------------------------------------------
-- Bodies that are taken for headers
-- ---------------------------------------------------------------------------

theorem parse_hidden (env : Env) {buffer : Bytes} (hlf : (10 : UInt8) ∉ cstr buffer)
    (hlength : contentLength (headersOf (around env buffer) (cstr buffer)) = 0) (n : Int) :
    ∃ request, (parseBuffer env buffer n).request = some request ∧
      request.headers = some (headersOf (around env buffer) (cstr buffer)) := by
  have hkept : headersRefused (around env buffer) (cstr buffer) = false := by
    rw [headersRefused, requestOffsets_hidden _ hlf]
    rfl
  have hheaders := requestHead_headers_eq (around env buffer) (cstr buffer)
  change _ = some (headersOf _ _) at hheaders
  rw [parseBuffer, parseHttpRequest_kept hkept, ← hheaders]
  unfold receiveRequest
  dsimp only
  rw [hheaders, Option.getD_some, hlength]
  split
  · exact ⟨_, rfl, hheaders⟩
  · exact ⟨_, rfl, rfl⟩

theorem exists_drop_stray {head : Bytes} (hhead : IsHead head) {i : Nat} (hi : head.length < i + 2) :
    ∃ before, (before = [] ∨ before = [10]) ∧
      ∀ body, (head ++ (List.replicate (i - head.length) 120 ++ body)).drop i = before ++ body := by
  rcases Nat.lt_or_ge i head.length with hlt | hge
  · obtain ⟨j, hfound, hlength⟩ := hhead
    obtain ⟨w, t, rfl, rfl⟩ := exists_of_strstr hfound
    rw [endOfHead_eq] at hlength hi hlt ⊢
    simp only [List.length_append, List.length_cons, List.length_nil] at hlength hi hlt
    have ht : t = [] := List.eq_nil_of_length_eq_zero (by omega)
    subst ht
    have hlast : i = w.length + 3 := by
      simp only [List.length_nil] at hi hlt
      omega
    subst hlast
    refine ⟨[10], .inr rfl, fun body => ?_⟩
    simp [List.drop_append]
  · refine ⟨[], .inl rfl, fun body => ?_⟩
    rw [List.drop_append, List.drop_of_length_le hge, List.nil_append,
      List.drop_left' (List.length_replicate ..), List.nil_append]

theorem not_independent {head : Bytes} (hhead : IsHead head) (hlf : (10 : UInt8) ∉ cstr head)
    (hzero : (0 : UInt8) ∈ head) {env : Env} (hstray : head.length < strayOffset env + 2) :
    ¬ BodyIndependent env head := by
  obtain ⟨before, hbefore, hdrop⟩ := exists_drop_stray hhead hstray
  let body (header : Bytes) : Bytes := List.replicate (strayOffset env - head.length) 120 ++ header
  have hheaders (header : Bytes) : headersOf (around env (head ++ body header)) (cstr (head ++ body header)) =
      (cstr (before ++ header)).take 4 := by
    rw [headersOf_hidden env (hidden_append hlf hzero _), hdrop, if_pos]
    simp only [body, List.length_append, List.length_replicate]
    omega
  have hparse (header : Bytes) (hlength : contentLength ((cstr (before ++ header)).take 4) = 0) :
      ∃ request, (parseBuffer env (head ++ body header) 0).request = some request ∧
        request.headers = some ((cstr (before ++ header)).take 4) := by
    have hparsed := parse_hidden env (hidden_append hlf hzero (body header)) (by rwa [hheaders]) 0
    rwa [hheaders] at hparsed
  obtain ⟨a, ha, hfound⟩ := hparse (bytes "A:b") (by rcases hbefore with rfl | rfl <;> decide)
  obtain ⟨b, hb, hnone⟩ := hparse [] (by rcases hbefore with rfl | rfl <;> decide)
  intro h
  obtain ⟨-, hsame⟩ := h (body (bytes "A:b")) (body []) 0 0
  rw [ha, hb] at hsame
  cases hsame with
  | some hsame =>
    have hlookup := hsame.lookup (bytes "A")
    rw [hfound, hnone] at hlookup
    rcases hbefore with rfl | rfl <;> revert hlookup <;> decide

theorem lf_mem_cstr_iff {head : Bytes} (hhead : IsHead head) :
    (10 : UInt8) ∈ cstr head ↔ (0 : UInt8) ∉ head.takeWhile (· ≠ 10) := by
  obtain ⟨line, headers, rfl, hline, -⟩ := hhead.exists_section
  have hword : ∀ x ∈ line, decide (x ≠ 10) = true := fun x hx => by
    simpa using fun h : x = 10 => hline (h ▸ hx)
  have htake : (line ++ 10 :: headers).takeWhile (· ≠ 10) = line := by
    rw [List.takeWhile_append_of_pos hword]
    simp
  rw [htake]
  by_cases hzero : (0 : UInt8) ∈ line
  · rw [cstr_append_of_mem hzero]
    exact iff_of_false (fun h => hline ((List.takeWhile_prefix _).subset h)) fun h => h hzero
  · rw [cstr_append_of_notMem hzero]
    exact iff_of_true (by simp [cstr]) hzero

/-- The body counts where a NUL hides the first line break and the buffer is where the
headers are taken from behind the head. -/
theorem bodyIndependent_iff (env : Env) {head : Bytes} (hhead : IsHead head) :
    BodyIndependent env head ↔
      (0 : UInt8) ∉ head.takeWhile (· ≠ 10) ∨ toUshort (-env.address) + 2 < head.length := by
  by_cases hlf : (10 : UInt8) ∈ cstr head
  · exact iff_of_true (independent_of_lf hhead hlf env) (.inl ((lf_mem_cstr_iff hhead).mp hlf))
  have hline : (0 : UInt8) ∈ head.takeWhile (· ≠ 10) := by
    by_contra hline
    exact hlf ((lf_mem_cstr_iff hhead).mpr hline)
  have hzero : (0 : UInt8) ∈ head := (List.takeWhile_prefix _).subset hline
  rw [or_iff_right (not_not_intro hline)]
  have hsum : strayOffset env = toUshort (-env.address) + 1 := rfl
  constructor
  · intro h
    by_contra hstray
    exact not_independent hhead hlf hzero (by omega) h
  · intro hstray
    exact independent_of_stray hhead hlf hzero (by omega)

theorem bodyIndependent_post : BodyIndependent .ok (postLine ++ 10 :: postHeaders) :=
  (bodyIndependent_iff .ok isHead_post).mpr (.inl (by decide))

/-- A NUL behind the version, and a body that begins with a header. -/
def hiddenHead : Bytes := bytes "GET / HTTP/1.1" ++ [0] ++ bytes "\r\n\r\n"

/-- The buffer is 32 bytes before a multiple of 65536. -/
def lateEnv : Env := { Env.ok with address := 65504 }

theorem isHead_hiddenHead : IsHead hiddenHead := ⟨15, by decide +kernel, by decide +kernel⟩

theorem hiddenHead_body :
    ((parseBuffer lateEnv (hiddenHead ++ bytes "xxxxxxxxxxxxxxA:b") 36).request.bind fun request =>
        getHttpHeaderValue (request.headers.getD []) (bytes "A")) = some (bytes "b") ∧
      ((parseBuffer lateEnv (hiddenHead ++ bytes "xxxxxxxxxxxxxxA:c") 36).request.bind fun request =>
        getHttpHeaderValue (request.headers.getD []) (bytes "A")) = some (bytes "c") ∧
      IsHead hiddenHead ∧ ¬ BodyIndependent lateEnv hiddenHead := by
  refine ⟨by decide +kernel, by decide +kernel, isHead_hiddenHead, ?_⟩
  exact not_independent isHead_hiddenHead (by decide) (by decide) (by decide)

end GeoNS.Http.Bodies
