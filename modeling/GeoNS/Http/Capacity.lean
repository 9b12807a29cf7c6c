import GeoNS.Runs
import GeoNS.Http.Server

/-!
# The capacity of a connection's buffer

`parse_http_request` reallocates the buffer for a request's body, while
`handle_client` keeps the limit it began with.
-/

namespace GeoNS.Http.Capacity

open CString Runs

def toSizeT (n : Int) : Nat := (n % 2 ^ 64).toNat

structure Receive where
  requested : Nat
  allocated : Option Nat
  deriving DecidableEq, Repr

def Receive.Fits (r : Receive) : Prop := ∃ n ∈ r.allocated, r.requested ≤ n

/-- `waiting` tells that the thread is in its `recv` with `MSG_PEEK`. -/
structure Connection where
  allocated : Option Nat
  bufferSizeLimit : Nat
  waiting : Bool
  log : List Receive
  deriving DecidableEq, Repr

def Connection.recv (c : Connection) (n : Nat) : Connection :=
  { c with log := c.log ++ [⟨n, c.allocated⟩] }

def Connection.peek (c : Connection) : Connection :=
  { c.recv c.bufferSizeLimit with waiting := true }

def Connection.leave (c : Connection) : Connection := { c with waiting := false }

def Connection.call (env : Env) (c : Connection) : Call → Connection
  | .realloc n => { c with allocated := if env.realloc then some (toSizeT n) else none }
  | .recv n => c.recv (toSizeT n)
  | _ => c

/-- What `handle_client` does after the callback, up to its next `recv`. -/
def Connection.consume (c : Connection) (bufferSize : Int) : Result → Connection
  | .ret value =>
    if value = -1 then (c.recv (toSizeT bufferSize)).leave
    else if value = 0 then (c.recv (toSizeT bufferSize)).peek
    else c.peek
  | .fault => c.leave

def receiveTotal (request : HttpRequest) : Option Int :=
  let bodySize := contentLength (request.headers.getD [])
  if request.method.isBodyRequired ∧ bodySize ≠ 0 then
    some (Int.bmod (request.headersOffset + bodySize) (2 ^ 64))
  else none

def bodyTotal (env : Env) (text : Bytes) : Option Int :=
  let request := requestOffsets env text
  if request.headersSize > baseHttpRequestHeaderSize ∧ !env.config.trimLargeHeaders then none
  else receiveTotal (requestHead env text request)

inductive Label
  | request (env : Env) (text : Bytes) (n : Nat)
  | done

def Allocates (env : Env) (text : Bytes) : Prop := ∀ size ∈ bodyTotal env text, env.realloc → 0 ≤ size

instance (env : Env) (text : Bytes) : Decidable (Allocates env text) :=
  inferInstanceAs (Decidable (∀ size ∈ bodyTotal env text, env.realloc → 0 ≤ size))

def step (server : HttpServer) (c : Connection) : Label → Option Connection
  | .request env text n =>
    if c.waiting ∧ 0 < n ∧ n ≤ c.bufferSizeLimit ∧ Allocates env text then
      let parsed := parseHttpRequest env text n
      some ((parsed.calls.foldl (Connection.call env) c).consume parsed.bufferSize
        (httpServerCallback env server text n).result)
    else none
  | .done => if c.waiting then some c.leave else none

def begin : Connection := Connection.peek ⟨some baseHttpRequestSize, baseHttpRequestSize, false, []⟩

def Bounded (c : Connection) : Prop := ∀ r ∈ c.log, r.Fits

-- ---------------------------------------------------------------------------
-- Requests that keep the buffer
-- ---------------------------------------------------------------------------

def Continues : Result → Prop
  | .ret value => value ≠ -1
  | .fault => False

instance : (r : Result) → Decidable (Continues r)
  | .ret value => inferInstanceAs (Decidable (value ≠ -1))
  | .fault => isFalse id

/-- A body is neither refused nor without memory, and unless the request is the
last one, it does not take less than the limit. -/
def Keeps (server : HttpServer) : Connection → Label → Prop
  | _, .request env text n => ∀ size ∈ bodyTotal env text,
    (size ≤ maxHttpRequestSize ∨ env.config.trimLargeBody) ∧ env.realloc ∧
      (Continues (httpServerCallback env server text n).result → baseHttpRequestSize ≤ size)
  | _, .done => True

instance (server : HttpServer) (c : Connection) : (l : Label) → Decidable (Keeps server c l)
  | .request env text _ => inferInstanceAs (Decidable (∀ size ∈ bodyTotal env text, _))
  | .done => isTrue trivial

-- ---------------------------------------------------------------------------
-- The parser's calls
-- ---------------------------------------------------------------------------

theorem foldl_call (env : Env) (c : Connection) {calls : List Call}
    (h : ∀ call ∈ calls, call.isReceive = false) : calls.foldl (Connection.call env) c = c := by
  induction calls with
  | nil => rfl
  | cons call calls ih =>
    have hcall : c.call env call = c := by
      have hfirst := h call List.mem_cons_self
      cases call with
      | recv n | realloc n => contradiction
      | _ => rfl
    rw [List.foldl_cons, hcall, ih fun call hmem => h call (List.mem_cons_of_mem _ hmem)]

theorem foldl_rejectRequest (env : Env) (c : Connection) (request : HttpRequest) (statusCode : Nat) :
    (rejectRequest request statusCode).foldl (Connection.call env) c = c := by
  refine foldl_call env c fun call hcall => ?_
  cases call with
  | recv n | realloc n =>
    simp [rejectRequest, sendHttpStatusBodyless, sendHttpStatus, killHttpConnection] at hcall
  | _ => rfl

theorem receiveRequest_bodyless (h : receiveTotal request = none) (env : Env) (n : Int) :
    (receiveRequest env request n).bufferSize = n ∧
      ((receiveRequest env request n).calls = [] ∨ (receiveRequest env request n).calls = [.recv n]) := by
  unfold receiveTotal at h
  unfold receiveRequest
  dsimp only at h ⊢
  split
  · exact ⟨rfl, .inr rfl⟩
  case isFalse hbody =>
    have hnone : contentLength (request.headers.getD []) = 0 := by
      by_contra hsome
      rw [if_pos ⟨by simpa using hbody, hsome⟩] at h
      contradiction
    rw [if_pos hnone]
    exact ⟨rfl, .inl rfl⟩

theorem receiveRequest_body (h : receiveTotal request = some size) (env : Env) (n : Int) :
    ∃ request', receiveRequest env request n =
      if size > maxHttpRequestSize ∧ !env.config.trimLargeBody then
        ⟨rejectRequest request' 413, none, size⟩
      else if env.realloc then
        ⟨[.realloc (min size maxHttpRequestSize), .recv (min size maxHttpRequestSize)], some request',
          min size maxHttpRequestSize⟩
      else
        ⟨.realloc (min size maxHttpRequestSize) :: rejectRequest request' 500, none,
          min size maxHttpRequestSize⟩ := by
  unfold receiveTotal at h
  dsimp only at h
  split at h
  case isFalse => contradiction
  case isTrue hbody =>
    obtain rfl := Option.some.inj h
    refine ⟨{ request with bodySize := contentLength (request.headers.getD []) }, ?_⟩
    unfold receiveRequest
    rw [if_neg (by simp [hbody.1])]
    dsimp only
    rw [if_neg hbody.2]

theorem parse_bodyless (h : bodyTotal env text = none) (n : Int) (c : Connection) :
    (parseHttpRequest env text n).bufferSize = n ∧
      ((parseHttpRequest env text n).calls.foldl (Connection.call env) c = c ∨
        (parseHttpRequest env text n).calls.foldl (Connection.call env) c = c.recv (toSizeT n)) := by
  unfold bodyTotal at h
  unfold parseHttpRequest
  dsimp only at h ⊢
  split at h
  case isTrue hlarge =>
    rw [if_pos hlarge]
    exact ⟨rfl, .inl (foldl_rejectRequest env c _ 431)⟩
  case isFalse hlarge =>
    rw [if_neg hlarge]
    obtain ⟨hsize, hcalls⟩ := receiveRequest_bodyless h env n
    refine ⟨hsize, ?_⟩
    rcases hcalls with hcalls | hcalls
    · rw [hcalls]
      exact .inl rfl
    · rw [hcalls]
      exact .inr rfl

theorem parse_body (h : bodyTotal env text = some size) (n : Int) :
    ∃ request, parseHttpRequest env text n =
      if size > maxHttpRequestSize ∧ !env.config.trimLargeBody then
        ⟨.acquire .request :: .acquire .requestHeaders :: rejectRequest request 413, none, size⟩
      else if env.realloc then
        ⟨[.acquire .request, .acquire .requestHeaders, .realloc (min size maxHttpRequestSize),
          .recv (min size maxHttpRequestSize)], some request, min size maxHttpRequestSize⟩
      else
        ⟨.acquire .request :: .acquire .requestHeaders :: .realloc (min size maxHttpRequestSize) ::
          rejectRequest request 500, none, min size maxHttpRequestSize⟩ := by
  unfold bodyTotal at h
  unfold parseHttpRequest
  dsimp only at h ⊢
  split at h
  case isTrue => contradiction
  case isFalse hlarge =>
    obtain ⟨request, hreceive⟩ := receiveRequest_body h env n
    refine ⟨request, ?_⟩
    rw [if_neg hlarge, hreceive]
    split
    · rfl
    · split <;> rfl

-- ---------------------------------------------------------------------------
-- Steps
-- ---------------------------------------------------------------------------

theorem callback_of_rejected (server : HttpServer) (h : (parseHttpRequest env text n).request = none) :
    (httpServerCallback env server text n).result = .ret (-1) := by
  unfold httpServerCallback
  dsimp only
  rw [h]

structure Sized (c : Connection) : Prop where
  limit : c.bufferSizeLimit = baseHttpRequestSize
  small : ∀ k ∈ c.allocated, k ≤ maxHttpRequestSize
  peeked : c.waiting → ⟨c.bufferSizeLimit, c.allocated⟩ ∈ c.log

theorem bounded_recv {c : Connection} :
    Bounded (c.recv n) ↔ Bounded c ∧ (⟨n, c.allocated⟩ : Receive).Fits := by
  simp [Bounded, Connection.recv, or_imp, forall_and]

@[simp] theorem bounded_leave {c : Connection} : Bounded c.leave ↔ Bounded c := Iff.rfl

theorem bounded_peek {c : Connection} :
    Bounded c.peek ↔ Bounded c ∧ (⟨c.bufferSizeLimit, c.allocated⟩ : Receive).Fits := bounded_recv

theorem fits_some : (⟨n, some k⟩ : Receive).Fits ↔ n ≤ k := by simp [Receive.Fits]

theorem not_fits_none : ¬ (⟨n, none⟩ : Receive).Fits := by simp [Receive.Fits]

/-- What is received after the callback, where the buffer holds `buffer_size`. -/
theorem bounded_consume {c : Connection} (hfits : (⟨toSizeT size, c.allocated⟩ : Receive).Fits) (r : Result) :
    Bounded (c.consume size r) ↔
      Bounded c ∧ (Continues r → (⟨c.bufferSizeLimit, c.allocated⟩ : Receive).Fits) := by
  cases r with
  | fault => simp [Connection.consume, Continues]
  | ret value =>
    simp only [Connection.consume, Continues]
    by_cases hend : value = -1
    · rw [if_pos hend, bounded_leave, bounded_recv]
      simp [hend, hfits]
    rw [if_neg hend]
    split
    · rw [bounded_peek, bounded_recv]
      simp only [hfits, and_true, hend, ne_eq, not_false_eq_true, forall_const]
      exact Iff.rfl
    · rw [bounded_peek]
      simp [hend]

theorem toSizeT_ofNat {n : Nat} (h : n < 2 ^ 64) : toSizeT n = n := by
  simp only [toSizeT]
  omega

theorem toSizeT_min {size : Int} (h : 0 ≤ size) :
    toSizeT (min size maxHttpRequestSize) = (min size maxHttpRequestSize).toNat ∧
      (min size maxHttpRequestSize).toNat ≤ maxHttpRequestSize := by
  simp only [toSizeT, maxHttpRequestSize]
  omega

theorem sized_consume {c : Connection} (hlimit : c.bufferSizeLimit = baseHttpRequestSize)
    (hsmall : ∀ k ∈ c.allocated, k ≤ maxHttpRequestSize) (size : Int) (r : Result) :
    Sized (c.consume size r) := by
  cases r with
  | fault => exact ⟨hlimit, hsmall, by simp [Connection.consume, Connection.leave]⟩
  | ret value =>
    simp only [Connection.consume]
    split
    · exact ⟨hlimit, hsmall, by simp [Connection.leave]⟩
    split
    · exact ⟨hlimit, hsmall, fun _ => List.mem_append_right _ (List.mem_singleton_self _)⟩
    · exact ⟨hlimit, hsmall, fun _ => List.mem_append_right _ (List.mem_singleton_self _)⟩

theorem bounded_of_consume {c : Connection} (h : Bounded (c.consume size r)) : Bounded c := by
  cases r with
  | fault => exact h
  | ret value =>
    simp only [Connection.consume] at h
    split at h
    · exact (bounded_recv.mp h).1
    split at h
    · exact (bounded_recv.mp (bounded_peek.mp h).1).1
    · exact (bounded_peek.mp h).1

theorem Sized.allocated (h : Sized c) (hwaiting : c.waiting) (hbounded : Bounded c) :
    ∃ k, c.allocated = some k ∧ baseHttpRequestSize ≤ k ∧ k ≤ maxHttpRequestSize := by
  obtain ⟨k, hk, hlimit⟩ := hbounded _ (h.peeked hwaiting)
  refine ⟨k, hk, ?_, h.small k hk⟩
  rwa [← h.limit]

theorem bodyTotal_lt (h : bodyTotal env text = some size) : size < 2 ^ 63 := by
  simp only [bodyTotal, receiveTotal] at h
  split at h
  · contradiction
  split at h
  case isFalse => contradiction
  case isTrue =>
    obtain rfl := Option.some.inj h
    exact Int.bmod_lt (by decide)

theorem sized_bodyless (h : Sized c) (hn : n ≤ c.bufferSizeLimit) (hwaiting : c.waiting)
    (htotal : bodyTotal env text = none) (r : Result) :
    let parsed := parseHttpRequest env text n
    let t := (parsed.calls.foldl (Connection.call env) c).consume parsed.bufferSize r
    Sized t ∧ (Bounded t ↔ Bounded c) := by
  obtain ⟨hsize, hcalls⟩ := parse_bodyless htotal n c
  have hlt : n < 2 ^ 64 := by
    rw [h.limit] at hn
    exact Nat.lt_of_le_of_lt hn (by decide)
  have hfits (hbounded : Bounded c) : (⟨toSizeT n, c.allocated⟩ : Receive).Fits := by
    obtain ⟨k, hk, hlimit, -⟩ := h.allocated hwaiting hbounded
    rw [hk, fits_some, toSizeT_ofNat hlt]
    rw [h.limit] at hn
    exact hn.trans hlimit
  have hpeek (hbounded : Bounded c) : (⟨c.bufferSizeLimit, c.allocated⟩ : Receive).Fits :=
    hbounded _ (h.peeked hwaiting)
  dsimp only
  rw [hsize]
  rcases hcalls with hcalls | hcalls
  · rw [hcalls]
    refine ⟨sized_consume h.limit h.small _ _, bounded_of_consume, fun hbounded => ?_⟩
    exact (bounded_consume (hfits hbounded) r).mpr ⟨hbounded, fun _ => hpeek hbounded⟩
  · rw [hcalls]
    refine ⟨sized_consume (c := c.recv (toSizeT n)) h.limit h.small _ _, fun ht => ?_, fun hbounded => ?_⟩
    · exact (bounded_recv.mp (bounded_of_consume ht)).1
    · refine (bounded_consume (c := c.recv (toSizeT n)) (hfits hbounded) r).mpr ⟨?_, fun _ => hpeek hbounded⟩
      exact bounded_recv.mpr ⟨hbounded, hfits hbounded⟩

theorem sized_body (h : Sized c) (hwaiting : c.waiting) (htotal : bodyTotal env text = some size)
    (hallocates : env.realloc → 0 ≤ size) (server : HttpServer) (n : Nat) :
    let parsed := parseHttpRequest env text n
    let r := (httpServerCallback env server text n).result
    let t := (parsed.calls.foldl (Connection.call env) c).consume parsed.bufferSize r
    Sized t ∧ (Bounded t ↔ Bounded c ∧ (size ≤ maxHttpRequestSize ∨ env.config.trimLargeBody) ∧
      env.realloc ∧ (Continues r → baseHttpRequestSize ≤ size)) := by
  obtain ⟨request, hparse⟩ := parse_body htotal n
  have hrejected := @callback_of_rejected env text n server
  dsimp only
  split at hparse
  case isTrue hlarge =>
    -- `buffer_size` is set, but the buffer is not
    have hend : (httpServerCallback env server text n).result = .ret (-1) := hrejected (by rw [hparse])
    have hfold : (parseHttpRequest env text n).calls.foldl (Connection.call env) c = c := by
      rw [hparse]
      exact foldl_rejectRequest env c request 413
    rw [hfold, hend, hparse]
    dsimp only
    refine ⟨sized_consume h.limit h.small _ _, iff_of_false (fun ht => ?_) fun hkeeps => ?_⟩
    · obtain ⟨hbounded, hfits⟩ := bounded_recv.mp (bounded_leave.mp ht)
      obtain ⟨k, hk, -, hsmall⟩ := h.allocated hwaiting hbounded
      have hsize := bodyTotal_lt htotal
      rw [hk, fits_some, toSizeT] at hfits
      simp only [maxHttpRequestSize] at hsmall hlarge
      omega
    · have hrefused : ¬ (size ≤ maxHttpRequestSize ∨ env.config.trimLargeBody) := by
        simpa using hlarge
      exact hrefused hkeeps.2.1
  case isFalse hlarge =>
    have haccepted : size ≤ maxHttpRequestSize ∨ env.config.trimLargeBody := by
      simpa [Classical.or_iff_not_imp_left] using hlarge
    split at hparse
    case isFalse hrealloc =>
      -- the buffer is NULL
      have hend : (httpServerCallback env server text n).result = .ret (-1) := hrejected (by rw [hparse])
      have hfold : (parseHttpRequest env text n).calls.foldl (Connection.call env) c =
          { c with allocated := none } := by
        rw [hparse]
        simp only [List.foldl_cons, Connection.call, hrealloc]
        exact foldl_rejectRequest env _ request 500
      rw [hfold, hend, hparse]
      refine ⟨sized_consume (c := { c with allocated := none }) h.limit (by simp) _ _, iff_of_false (fun ht => ?_) fun hkeeps => ?_⟩
      · exact not_fits_none (bounded_recv.mp (bounded_leave.mp ht)).2
      · exact hrealloc hkeeps.2.2.1
    case isTrue hrealloc =>
      obtain ⟨hsize, hsmall⟩ := toSizeT_min (hallocates hrealloc)
      obtain ⟨d, hfold, hd⟩ : ∃ d, (parseHttpRequest env text n).calls.foldl (Connection.call env) c = d ∧
          d = Connection.recv { c with allocated := some (toSizeT (min size maxHttpRequestSize)) }
            (toSizeT (min size maxHttpRequestSize)) := by
        refine ⟨_, rfl, ?_⟩
        rw [hparse]
        simp [Connection.call, hrealloc]
      have hlimit : d.bufferSizeLimit = baseHttpRequestSize := by rw [hd, ← h.limit]; rfl
      have hallocated : d.allocated = some (toSizeT (min size maxHttpRequestSize)) := by rw [hd]; rfl
      have hself : (⟨toSizeT (min size maxHttpRequestSize), d.allocated⟩ : Receive).Fits := by
        rw [hallocated, fits_some]
      have hbounded : Bounded d ↔ Bounded c := by
        rw [hd, bounded_recv]
        exact and_iff_left (fits_some.mpr (Nat.le_refl _))
      have hfits : (⟨d.bufferSizeLimit, d.allocated⟩ : Receive).Fits ↔
          (baseHttpRequestSize : Int) ≤ size := by
        rw [hlimit, hallocated, fits_some, hsize]
        simp only [baseHttpRequestSize, maxHttpRequestSize]
        omega
      rw [hfold, hparse]
      dsimp only
      refine ⟨sized_consume hlimit ?_ _ _, ?_⟩
      · rw [hallocated, hsize]
        rintro k hk
        rwa [← Option.some.inj hk]
      · rw [bounded_consume hself, hbounded, hfits]
        simp [haccepted, hrealloc]

theorem sized_step (server : HttpServer) (c : Connection) (l : Label) (t : Connection) (h : Sized c)
    (hstep : step server c l = some t) : Sized t ∧ (Bounded t ↔ Bounded c ∧ Keeps server c l) := by
  cases l with
  | done =>
    simp only [step] at hstep
    split at hstep
    case isFalse => contradiction
    case isTrue =>
      obtain rfl := Option.some.inj hstep
      refine ⟨⟨h.limit, h.small, by simp [Connection.leave]⟩, ?_⟩
      exact (and_iff_left trivial).symm
  | request env text n =>
    simp only [step] at hstep
    split at hstep
    case isFalse => contradiction
    case isTrue henabled =>
      obtain ⟨hwaiting, -, hn, hallocates⟩ := henabled
      obtain rfl := Option.some.inj hstep
      cases htotal : bodyTotal env text with
      | none =>
        obtain ⟨hsized, hbounded⟩ := sized_bodyless h hn hwaiting htotal
          (httpServerCallback env server text n).result
        refine ⟨hsized, hbounded.trans (and_iff_left ?_).symm⟩
        simp [Keeps, htotal]
      | some size =>
        obtain ⟨hsized, hbounded⟩ := sized_body h hwaiting htotal (hallocates size htotal) server n
        refine ⟨hsized, hbounded.trans (and_congr_right fun _ => ?_)⟩
        simp [Keeps, htotal]

-- ---------------------------------------------------------------------------
-- Runs
-- ---------------------------------------------------------------------------

theorem sized_begin : Sized begin := by
  refine ⟨rfl, ?_, fun _ => List.mem_singleton_self _⟩
  rintro k hk
  rw [← Option.some.inj hk]
  decide

theorem bounded_begin : Bounded begin := by
  rintro r hr
  rw [List.mem_singleton.mp hr]
  exact fits_some.mpr (Nat.le_refl _)

/-- Whatever is sent on a connection, its lengths are bounded by what is
allocated exactly as long as every request keeps the buffer. -/
theorem bounded_iff (server : HttpServer) (hrun : run (step server) begin ls = some t) :
    Bounded t ↔ Each (step server) (Keeps server) begin ls := by
  rw [verdict_iff (sized_step server) hrun sized_begin]
  exact and_iff_right bounded_begin

-- ---------------------------------------------------------------------------
-- Samples
-- ---------------------------------------------------------------------------

def sampleServer : HttpServer := ⟨bytes "/srv/web", setupGeonsHttpRouter []⟩

/-- A page, and then a large upload, with which the client leaves. -/
def largeUpload : List Label :=
  [.request .ok (bytes "GET / HTTP/1.1\r\n\r\n") 18,
    .request .ok (bytes "POST / HTTP/1.1\r\nContent-Length: 8000\r\n\r\n") 41, .done]

theorem bounded_largeUpload :
    ∃ t, run (step sampleServer) begin largeUpload = some t ∧ t.allocated = some 8041 ∧ Bounded t := by
  have hallocated : (run (step sampleServer) begin largeUpload).map (·.allocated) = some (some 8041) := by
    decide +kernel
  obtain ⟨t, hrun, hallocated⟩ := Option.map_eq_some_iff.mp hallocated
  exact ⟨t, hrun, hallocated, (bounded_iff sampleServer hrun).mpr (by decide +kernel)⟩

/-- The buffer shrinks to the request, and the next `recv` may fill the old one. -/
def smallUpload : List Label :=
  [.request .ok (bytes "POST / HTTP/1.1\r\nContent-Length: 5\r\n\r\nhello") 43]

theorem not_bounded_smallUpload :
    ∃ t, run (step sampleServer) begin smallUpload = some t ∧ ⟨4095, some 43⟩ ∈ t.log ∧ ¬ Bounded t := by
  have hlog : (run (step sampleServer) begin smallUpload).map (fun t => decide (⟨4095, some 43⟩ ∈ t.log)) =
      some true := by
    decide +kernel
  obtain ⟨t, hrun, hlog⟩ := Option.map_eq_some_iff.mp hlog
  have hmem : ⟨4095, some 43⟩ ∈ t.log := of_decide_eq_true hlog
  exact ⟨t, hrun, hmem, fun h => absurd (fits_some.mp (h _ hmem)) (by decide)⟩

end GeoNS.Http.Capacity
