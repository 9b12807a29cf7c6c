import GeoNS.Http.Section

/-!
# A request that arrives in pieces

`handle_client` looks at what has arrived and calls the server with it, and the
parser takes both of its searches to have succeeded. The request that gets to
the routes is compared with the one that was sent, for every way in which it is
cut.
-/

namespace GeoNS.Http.Arrival

open CString Methods RequestLine Terminated Section

-- ---------------------------------------------------------------------------
-- The loop of the connection
-- ---------------------------------------------------------------------------

def Complete (text : Bytes) : Prop := (strstr text endOfHead).isSome

instance (text : Bytes) : Decidable (Complete text) :=
  inferInstanceAs (Decidable ((strstr text endOfHead).isSome = true))

structure Handled where
  text : Bytes
  request : Option HttpRequest
  deriving DecidableEq, Repr

/-- The calls up to the first request that is looked up. `queue` is what has
arrived and was only looked at. -/
def handleClient (env : Env) (server : HttpServer) (buffer queue : Bytes) :
    List Bytes → List Handled
  | [] => []
  | piece :: pieces =>
    let queue := queue ++ piece
    let peeked := queue.take baseHttpRequestSize
    let buffer := peeked ++ buffer.drop peeked.length
    let text := cstr buffer
    let n := peeked.length
    ⟨text, routed env text n⟩ ::
      if (routed env text n).isSome then []
      else
        match (httpServerCallback env server text n).result with
        | .ret value =>
          if value = -1 then []
          else if value = 0 then handleClient env server buffer (queue.drop n) pieces
          else handleClient env server buffer queue pieces
        | .fault => []

def freshBuffer : Bytes := List.replicate baseHttpRequestSize 0

/-- The results of `recv` for a text; each leaves room for a NUL. -/
structure Cut (sent : Bytes) (pieces : List Bytes) : Prop where
  joined : pieces.flatten = sent
  ne_nil : ∀ piece ∈ pieces, piece ≠ []
  room : ∀ piece ∈ pieces, piece.length < baseHttpRequestSize

/-- No offset comes from a search that failed: they do not depend on where the
buffer is. -/
def Located (env : Env) (text : Bytes) : Prop :=
  ∀ address, requestOffsets { env with address } text = requestOffsets env text

/-- A text that is not complete is not parsed, and the request that is looked up
has the head that was sent. -/
structure Delivered (env : Env) (sent : Bytes) (calls : List Handled) : Prop where
  unparsed : ∀ call ∈ calls, ¬ Complete call.text → Located env call.text ∧ call.request = none
  same : Option.Rel SameHead (calls.findSome? Handled.request) (routed env sent sent.length)

-- ---------------------------------------------------------------------------
-- One call
-- ---------------------------------------------------------------------------

theorem callback_of_not_routed (server : HttpServer) {env : Env} {text : Bytes} {n : Int}
    (h : routed env text n = none) : (httpServerCallback env server text n).result = .ret (-1) := by
  unfold routed at h
  unfold httpServerCallback
  dsimp only
  cases hparsed : (parseHttpRequest env text n).request with
  | none => rfl
  | some request =>
    rw [hparsed, Option.bind_some] at h
    cases hchecked : checkRequest env.config request with
    | error code =>
      dsimp only
      rw [hchecked]
    | ok checked =>
      rw [hchecked] at h
      contradiction

theorem handleClient_cons (env : Env) (server : HttpServer) {piece : Bytes} (hzero : (0 : UInt8) ∉ piece)
    (hroom : piece.length < baseHttpRequestSize) (pieces : List Bytes) :
    handleClient env server freshBuffer [] (piece :: pieces) =
      [⟨piece, routed env piece piece.length⟩] := by
  have hpeeked : piece.take baseHttpRequestSize = piece := List.take_of_length_le (Nat.le_of_lt hroom)
  have htext : cstr (piece ++ freshBuffer.drop piece.length) = piece := by
    have hpad : baseHttpRequestSize - piece.length = baseHttpRequestSize - piece.length - 1 + 1 := by omega
    rw [freshBuffer, List.drop_replicate, hpad, List.replicate_succ]
    exact cstr_append_zero hzero
  rw [handleClient, List.nil_append, hpeeked, htext]
  cases hrouted : routed env piece piece.length with
  | none => rw [callback_of_not_routed server hrouted]; rfl
  | some request => rfl

theorem located_iff (env : Env) (text : Bytes) : Located env text ↔ Complete text := by
  constructor
  · intro h
    by_contra hincomplete
    have hnone : strstr text (bytes "\r\n\r\n") = none := by
      simpa [Complete, endOfHead] using hincomplete
    have hoffset := congrArg HttpRequest.headersOffset (h (env.address + 1))
    simp only [requestOffsets, hnone, pointerOffset, toUshort] at hoffset
    omega
  · intro h address
    obtain ⟨i, hend⟩ := Option.isSome_iff_exists.mp h
    obtain ⟨w, t, rfl, -⟩ := exists_of_strstr hend
    have hlf : (strstr (w ++ (endOfHead ++ t)) (bytes "\n")).isSome := by
      refine strstr_isSome_iff.mpr ?_
      exact ⟨w ++ [13], [13, 10] ++ t, by rw [endOfHead_eq]; simp [bytes]⟩
    obtain ⟨lf, hlf⟩ := Option.isSome_iff_exists.mp hlf
    rw [requestOffsets_of_found _ hlf hend, requestOffsets_of_found _ hlf hend]

theorem Complete.exists_head {text : Bytes} (h : Complete text) :
    ∃ head t, text = head ++ t ∧ IsHead head := by
  obtain ⟨i, hend⟩ := Option.isSome_iff_exists.mp h
  obtain ⟨w, t, rfl, rfl⟩ := exists_of_strstr hend
  refine ⟨w ++ endOfHead, t, (List.append_assoc _ _ _).symm, w.length, strstr_of_append hend, ?_⟩
  rw [endOfHead_eq]
  simp

-- ---------------------------------------------------------------------------
-- Every cut
-- ---------------------------------------------------------------------------

theorem checkRequest_same (config : HttpConfig) {a b : HttpRequest} (h : SameHead a b) :
    (∃ code, checkRequest config a = .error code ∧ checkRequest config b = .error code) ∨
      ∃ c d, checkRequest config a = .ok c ∧ checkRequest config b = .ok d ∧ SameHead c d := by
  have hstandard : (isStandardHttpMethod a).1 = (isStandardHttpMethod b).1 := by
    have hname := h.upperMethod.nameMemory
    simp only [isStandardHttpMethod, HttpRequest.methodAmong, HttpRequest.methodName, hname]
  unfold checkRequest
  dsimp only
  rw [h.version, hstandard]
  split
  · exact .inl ⟨_, rfl, rfl⟩
  split
  · exact .inl ⟨_, rfl, rfl⟩
  split
  · exact .inl ⟨_, rfl, rfl⟩
  · exact .inr ⟨_, _, rfl, rfl, h.upperMethod⟩

theorem routed_same (env : Env) {head : Bytes} (h : IsHead head) (t₁ t₂ : Bytes) (n₁ n₂ : Int) :
    Option.Rel SameHead (routed env (head ++ t₁) n₁) (routed env (head ++ t₂) n₂) := by
  have hparse := (h.parse_same env t₁ t₂ n₁ n₂).2
  unfold routed
  generalize (parseHttpRequest env (head ++ t₁) n₁).request = a at hparse ⊢
  generalize (parseHttpRequest env (head ++ t₂) n₂).request = b at hparse ⊢
  cases hparse with
  | none => exact .none
  | some hsame =>
    rw [Option.bind_some, Option.bind_some]
    rcases checkRequest_same env.config hsame with ⟨code, ha, hb⟩ | ⟨c, d, ha, hb, hsame⟩
    · rw [ha, hb]
      exact .none
    · rw [ha, hb]
      exact .some hsame

/-- The request is delivered exactly if its head arrives with the first bytes. -/
theorem delivered_iff (env : Env) (server : HttpServer) {sent : Bytes} (hzero : (0 : UInt8) ∉ sent)
    (hsent : Complete sent) (hcut : Cut sent pieces) :
    Delivered env sent (handleClient env server freshBuffer [] pieces) ↔
      ∃ piece ∈ pieces.head?, Complete piece := by
  cases pieces with
  | nil =>
    rw [← hcut.joined] at hsent
    contradiction
  | cons piece pieces =>
    have hsum : sent = piece ++ pieces.flatten := hcut.joined.symm
    have hclean : (0 : UInt8) ∉ piece := fun hmem => hzero (hsum ▸ List.mem_append_left _ hmem)
    rw [handleClient_cons env server hclean (hcut.room piece List.mem_cons_self)]
    simp only [List.head?_cons, Option.mem_some_iff, exists_eq_left']
    constructor
    · intro h
      by_contra hincomplete
      have hlocated := (h.unparsed _ (List.mem_singleton_self _) hincomplete).1
      exact hincomplete ((located_iff env piece).mp hlocated)
    · intro hcomplete
      refine ⟨?_, ?_⟩
      · intro call hcall hincomplete
        rw [List.mem_singleton.mp hcall] at hincomplete
        exact absurd hcomplete hincomplete
      · obtain ⟨head, t, rfl, hhead⟩ := hcomplete.exists_head
        rw [List.append_assoc] at hsum
        have hsame := routed_same env hhead t (t ++ pieces.flatten) (head ++ t).length sent.length
        rw [← hsum] at hsame
        cases hrouted : routed env (head ++ t) (head ++ t).length with
        | none => rwa [hrouted] at hsame
        | some request => rwa [hrouted] at hsame

-- ---------------------------------------------------------------------------
-- A cut in the URI
-- ---------------------------------------------------------------------------

def nodesRequest : Bytes := bytes "GET /nodes HTTP/1.1\r\n\r\n"

def located : Env := { Env.ok with address := 94112208896752 }

theorem delivered_whole :
    Delivered located nodesRequest (handleClient located sampleRouter freshBuffer [] [nodesRequest]) :=
  have hcut : Cut nodesRequest [nodesRequest] := ⟨by simp, by decide, by decide⟩
  (delivered_iff located sampleRouter (by decide) (by decide +kernel) hcut).mpr
    ⟨nodesRequest, rfl, by decide +kernel⟩

def firstPiece : Bytes := bytes "GET /nod"

def secondPiece : Bytes := bytes "es HTTP/1.1\r\n\r\n"

/-- Another URI is looked up than the one that was sent. -/
theorem not_delivered_pieces :
    Cut nodesRequest [firstPiece, secondPiece] ∧ (0 : UInt8) ∉ nodesRequest ∧ Complete nodesRequest ∧
      (handleClient located sampleRouter freshBuffer [] [firstPiece, secondPiece]).map
        (fun call => (call.text, call.request.map HttpRequest.uriText)) =
          [(firstPiece, some (bytes "/nod"))] ∧
      ¬ Delivered located nodesRequest
        (handleClient located sampleRouter freshBuffer [] [firstPiece, secondPiece]) := by
  have hcalls : (handleClient located sampleRouter freshBuffer [] [firstPiece, secondPiece]).map
      (fun call => (call.text, call.request.map HttpRequest.uriText)) =
        [(firstPiece, some (bytes "/nod"))] := by
    decide +kernel
  refine ⟨⟨by decide, by decide, by decide⟩, by decide, by decide +kernel, hcalls, fun h => ?_⟩
  have hmem : (firstPiece, some (bytes "/nod")) ∈
      (handleClient located sampleRouter freshBuffer [] [firstPiece, secondPiece]).map
        (fun call => (call.text, call.request.map HttpRequest.uriText)) := by
    rw [hcalls]
    exact List.mem_singleton_self _
  obtain ⟨call, hcall, heq⟩ := List.mem_map.mp hmem
  obtain ⟨htext, huri⟩ := Prod.mk.inj heq
  have hincomplete : ¬ Complete call.text := by
    rw [htext]
    decide
  rw [(h.unparsed call hcall hincomplete).2] at huri
  contradiction

end GeoNS.Http.Arrival
