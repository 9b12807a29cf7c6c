import GeoNS.Http.OneAnswer

/-!
# The length of a body

The text of a `Content-Length` header is read as a `long`, and the size of the
buffer is a sum of several integer types. It is compared with the exact sum of
a decimal length and the offset of the body.
-/

namespace GeoNS.Http.Framing

open CString

-- ---------------------------------------------------------------------------
-- The two sums
-- ---------------------------------------------------------------------------

def decimal (value : Bytes) : Option Nat :=
  let ds := digits value
  if ds ≠ [] ∧ (value.drop ds.length).all isspace then some (decVal ds) else none

def total (headersOffset : Nat) (value : Bytes) : Int := headersOffset + (strtol value).1

theorem strtol_decimal (h : decimal value = some n) :
    (strtol value).1 = min (n : Int) (2 ^ 63 - 1) := by
  unfold decimal at h
  dsimp only at h
  split at h
  case isTrue hdigits =>
    rw [strtol_digits hdigits.1, Option.some.inj h]
  case isFalse => contradiction

theorem contentLength_eq (h : getHttpHeaderValue headers (bytes "Content-Length") = some value) :
    contentLength headers = ((strtol value).1 % 2 ^ 64).toNat := by
  unfold contentLength
  rw [h]
  cases hconverted : (strtol value).2 with
  | true => simp [hconverted]
  | false => simp [hconverted, strtol_eq_zero hconverted]

theorem contentLength_eq_zero_iff
    (h : getHttpHeaderValue headers (bytes "Content-Length") = some value) :
    contentLength headers = 0 ↔ (strtol value).1 = 0 := by
  obtain ⟨hlower, hupper⟩ := strtol_bounds value
  rw [contentLength_eq h]
  omega

/-- The sum as a `long long`, which it can exceed but not fall below. -/
def wrapped (headersOffset : Nat) (value : Bytes) : Int :=
  if total headersOffset value < 2 ^ 63 then total headersOffset value
  else total headersOffset value - 2 ^ 64

theorem bufferSize_eq {headersOffset : Nat} (hoffset : headersOffset < 65536)
    (h : getHttpHeaderValue headers (bytes "Content-Length") = some value) :
    Int.bmod (headersOffset + contentLength headers) (2 ^ 64) = wrapped headersOffset value := by
  obtain ⟨hlower, hupper⟩ := strtol_bounds value
  rw [contentLength_eq h, wrapped, total, Int.bmod_def]
  omega

theorem wrapped_nonneg {headersOffset : Nat} (hoffset : headersOffset < 65536)
    (h : 0 ≤ wrapped headersOffset value) :
    total headersOffset value < 2 ^ 63 ∧ wrapped headersOffset value = total headersOffset value := by
  obtain ⟨hlower, hupper⟩ := strtol_bounds value
  unfold wrapped at h ⊢
  split at h
  case isTrue hfits => exact ⟨hfits, if_pos hfits⟩
  case isFalse =>
    unfold total at h
    omega

-- ---------------------------------------------------------------------------
-- The end of the parser
-- ---------------------------------------------------------------------------

inductive Sized (env : Env) (headersOffset : Nat) (value : Bytes) (n : Int) : Parsed → Prop
  | empty (hzero : (strtol value).1 = 0) (request : HttpRequest) :
    Sized env headersOffset value n ⟨[], some request, n⟩
  | tooLarge (hlarge : maxHttpRequestSize < wrapped headersOffset value)
      (htrim : env.config.trimLargeBody = false) (request : HttpRequest) (size : Int) :
    Sized env headersOffset value n ⟨rejectRequest request 413, none, size⟩
  | received (hpos : (strtol value).1 ≠ 0)
      (hallowed : ¬ (maxHttpRequestSize < wrapped headersOffset value ∧
        env.config.trimLargeBody = false))
      (calls : List Call) (hcalls : statusCodes calls = [] ∨ statusCodes calls = [500])
      (request : Option HttpRequest) :
    Sized env headersOffset value n
      ⟨calls, request, min (wrapped headersOffset value) maxHttpRequestSize⟩

theorem receiveRequest_sized (env : Env) {request : HttpRequest} (hbody : request.method.isBodyRequired)
    (hoffset : request.headersOffset < 65536)
    (hvalue : getHttpHeaderValue (request.headers.getD []) (bytes "Content-Length") = some value)
    (n : Int) : Sized env request.headersOffset value n (receiveRequest env request n) := by
  have hsize := bufferSize_eq hoffset hvalue
  have hzero := contentLength_eq_zero_iff hvalue
  unfold receiveRequest
  rw [hbody, if_neg (by decide)]
  dsimp only
  rw [hsize]
  split
  case isTrue h => exact .empty (hzero.mp h) _
  case isFalse h =>
  have hpos := fun h0 => h (hzero.mpr h0)
  split
  case isTrue hlarge => exact .tooLarge hlarge.1 (by simpa using hlarge.2) _ _
  case isFalse hallowed =>
  have hallowed : ¬ (maxHttpRequestSize < wrapped request.headersOffset value ∧
      env.config.trimLargeBody = false) := by simpa using hallowed
  split
  · exact .received hpos hallowed _ (.inl rfl) _
  · refine .received hpos hallowed _ (.inr ?_) _
    rw [statusCodes_cons_of_not rfl, statusCodes_rejectRequest]

-- ---------------------------------------------------------------------------
-- The exact sum
-- ---------------------------------------------------------------------------

def Rejected (parsed : Parsed) : Prop :=
  parsed.request = none ∧ ∃ code ∈ statusCodes parsed.calls, 400 ≤ code ∧ code < 500

/-- A request that is not rejected has a decimal length, and its buffer the exact
size up to the limit. -/
structure Framed (env : Env) (headersOffset : Nat) (value : Bytes) (parsed : Parsed) : Prop where
  exact : Rejected parsed ∨ ∃ length, decimal value = some length ∧
    (0 < length → parsed.bufferSize = min (headersOffset + length) maxHttpRequestSize)
  limited : ∀ length, decimal value = some length → (413 ∈ statusCodes parsed.calls ↔
    maxHttpRequestSize < headersOffset + length ∧ env.config.trimLargeBody = false)

/-- The sum does not wrap, and the length is decimal or above the limit. -/
def Summable (env : Env) (headersOffset : Nat) (value : Bytes) : Prop :=
  total headersOffset value < 2 ^ 63 ∧ ((decimal value).isSome ∨
    maxHttpRequestSize < total headersOffset value ∧ env.config.trimLargeBody = false)

instance (env : Env) (headersOffset : Nat) (value : Bytes) :
    Decidable (Summable env headersOffset value) := inferInstanceAs (Decidable (_ ∧ _))

theorem framed_of_none (h : decimal value = none) :
    Framed env headersOffset value parsed ↔ Rejected parsed := by
  constructor
  · rintro ⟨hrejected | ⟨length, hlength, -⟩, -⟩
    · exact hrejected
    · rw [h] at hlength
      contradiction
  · intro hrejected
    refine ⟨.inl hrejected, fun length hlength => ?_⟩
    rw [h] at hlength
    contradiction

theorem framed_of_some (h : decimal value = some length) : Framed env headersOffset value parsed ↔
    (Rejected parsed ∨
        (0 < length → parsed.bufferSize = min (headersOffset + length) maxHttpRequestSize)) ∧
      (413 ∈ statusCodes parsed.calls ↔
        maxHttpRequestSize < headersOffset + length ∧ env.config.trimLargeBody = false) := by
  constructor
  · rintro ⟨hexact, hlimited⟩
    refine ⟨hexact.imp_right ?_, hlimited length h⟩
    rintro ⟨length', hlength', hsize⟩
    rw [h] at hlength'
    exact Option.some.inj hlength' ▸ hsize
  · rintro ⟨hexact, hlimited⟩
    refine ⟨hexact.imp_right fun hsize => ⟨length, h, hsize⟩, fun length' hlength' => ?_⟩
    rw [h] at hlength'
    exact Option.some.inj hlength' ▸ hlimited

theorem framed_of_sized {headersOffset : Nat} (hoffset : headersOffset < 65536)
    (h : Sized env headersOffset value n parsed) :
    Framed env headersOffset value parsed ↔ Summable env headersOffset value := by
  have hmax : maxHttpRequestSize = 2 ^ 31 - 1 := rfl
  obtain ⟨hlower, hupper⟩ := strtol_bounds value
  have hno413 : ∀ calls, statusCodes calls = [] ∨ statusCodes calls = [500] →
      413 ∉ statusCodes calls ∧ ¬ ∃ code ∈ statusCodes calls, 400 ≤ code ∧ code < 500 := by
    rintro calls (hcalls | hcalls) <;> simp [hcalls]
  unfold Summable
  cases hdecimal : decimal value with
  | none =>
    rw [framed_of_none hdecimal]
    cases h with
    | empty hzero request =>
      refine iff_of_false (fun hrejected => nomatch hrejected.1) ?_
      rintro ⟨-, hsome | ⟨hlarge, -⟩⟩
      · contradiction
      · unfold total at hlarge
        omega
    | tooLarge hlarge htrim request size =>
      refine iff_of_true ⟨rfl, 413, by simp, by decide⟩ ?_
      have hnonneg : 0 ≤ wrapped headersOffset value := by omega
      obtain ⟨hfits, heq⟩ := wrapped_nonneg hoffset hnonneg
      exact ⟨hfits, .inr ⟨heq ▸ hlarge, htrim⟩⟩
    | received hpos hallowed calls hcalls request =>
      refine iff_of_false (fun hrejected => (hno413 calls hcalls).2 hrejected.2) ?_
      rintro ⟨hfits, hsome | hlarge⟩
      · contradiction
      · rw [wrapped, if_pos hfits] at hallowed
        exact hallowed hlarge
  | some length =>
    have hlength := strtol_decimal hdecimal
    rw [framed_of_some hdecimal]
    cases h with
    | empty hzero request =>
      refine iff_of_true ⟨.inr fun hpos => by omega, iff_of_false (by simp [statusCodes]) ?_⟩ ?_
      · rintro ⟨hlarge, -⟩
        omega
      · refine ⟨?_, .inl rfl⟩
        unfold total
        omega
    | tooLarge hlarge htrim request size =>
      have hnonneg : 0 ≤ wrapped headersOffset value := by omega
      obtain ⟨hfits, heq⟩ := wrapped_nonneg hoffset hnonneg
      have hsum : maxHttpRequestSize < headersOffset + length := by
        rw [heq, total] at hlarge
        omega
      refine iff_of_true ⟨.inl ⟨rfl, 413, by simp, by decide⟩, iff_of_true (by simp) ⟨hsum, htrim⟩⟩ ?_
      exact ⟨hfits, .inl rfl⟩
    | received hpos hallowed calls hcalls request =>
      have hrejected : ¬ Rejected ⟨calls, request,
          min (wrapped headersOffset value) maxHttpRequestSize⟩ :=
        fun hrejected => (hno413 calls hcalls).2 hrejected.2
      rw [or_iff_right hrejected, iff_false_left (hno413 calls hcalls).1]
      have hsum : total headersOffset value = headersOffset + min (length : Int) (2 ^ 63 - 1) := by
        rw [total, hlength]
      constructor
      · rintro ⟨hsize, -⟩
        have hsize := hsize (by omega)
        have hnonneg : 0 ≤ wrapped headersOffset value := by
          dsimp only at hsize
          omega
        exact ⟨(wrapped_nonneg hoffset hnonneg).1, .inl rfl⟩
      · rintro ⟨hfits, -⟩
        rw [wrapped, if_pos hfits, hsum] at hallowed ⊢
        refine ⟨fun _ => ?_, fun hlarge => hallowed ⟨?_, hlarge.2⟩⟩
        · dsimp only
          omega
        · omega

theorem requestHead_headersOffset (env : Env) (text : Bytes) (request : HttpRequest) :
    (requestHead env text request).headersOffset = request.headersOffset := by
  obtain ⟨method, uri, version, heq⟩ := requestHead_frame env text request
  rw [heq]

theorem headersOffset_lt (env : Env) (text : Bytes) :
    (requestOffsets env text).headersOffset < 65536 := by
  simp only [requestOffsets, toUshort]
  omega

/-- The body of a request whose headers are kept is framed exactly if the sum is
one of exact integers, and decimal or rejected. -/
theorem framed_iff (env : Env) (text : Bytes) (n : Int)
    (hkept : ¬ ((requestOffsets env text).headersSize > baseHttpRequestHeaderSize ∧
      !env.config.trimLargeHeaders))
    (hbody : (requestHead env text (requestOffsets env text)).method.isBodyRequired)
    (hvalue : getHttpHeaderValue ((requestHead env text (requestOffsets env text)).headers.getD [])
      (bytes "Content-Length") = some value) :
    Framed env (requestOffsets env text).headersOffset value (parseHttpRequest env text n) ↔
      Summable env (requestOffsets env text).headersOffset value := by
  have hoffset := requestHead_headersOffset env text (requestOffsets env text)
  have hsized := receiveRequest_sized env hbody (hoffset ▸ headersOffset_lt env text) hvalue n
  rw [← framed_of_sized (headersOffset_lt env text) (hoffset ▸ hsized), parseHttpRequest, if_neg hkept]
  exact ⟨fun h => ⟨h.exact, h.limited⟩, fun h => ⟨h.exact, h.limited⟩⟩

-- ---------------------------------------------------------------------------
-- A length and a sign
-- ---------------------------------------------------------------------------

def sizedRequest : Bytes := bytes "POST / HTTP/1.1\r\nContent-Length: 5\r\n\r\n"

def signedRequest : Bytes := bytes "POST / HTTP/1.1\r\nContent-Length: -5\r\n\r\n"

theorem framed_sizedRequest :
    Framed .ok (requestOffsets .ok sizedRequest).headersOffset (bytes "5\r")
      (parseHttpRequest .ok sizedRequest 38) :=
  (framed_iff .ok sizedRequest 38 (by decide +kernel) (by decide +kernel) (by decide +kernel)).mpr
    (by decide +kernel)

/-- The buffer gets smaller than the part of it that was parsed. -/
theorem not_framed_signedRequest :
    (requestOffsets .ok signedRequest).headersOffset = 39 ∧
      getHttpHeaderValue ((requestHead .ok signedRequest
        (requestOffsets .ok signedRequest)).headers.getD []) (bytes "Content-Length") =
          some (bytes "-5\r") ∧
      (parseHttpRequest .ok signedRequest 39).bufferSize = 34 ∧
      ¬ Framed .ok 39 (bytes "-5\r") (parseHttpRequest .ok signedRequest 39) := by
  have hdecimal : decimal (bytes "-5\r") = none := by decide
  have hcodes : statusCodes (parseHttpRequest .ok signedRequest 39).calls = [] := by decide +kernel
  refine ⟨by decide +kernel, by decide +kernel, by decide +kernel, fun hframed => ?_⟩
  rcases (framed_of_none hdecimal).mp hframed with ⟨-, code, hcode, -⟩
  rw [hcodes] at hcode
  cases hcode

end GeoNS.Http.Framing
