import GeoNS.Runs
import GeoNS.Geonsp.Protocol

/-!
# The buffer of a gateway connection

`handle_client` receives every message into the same buffer and writes no
terminator after it, and the handler reads the buffer as a string. What an
earlier, longer message left behind the new one is then read with it.
-/

namespace GeoNS.Geonsp

open CString Runs

abbrev Chunk := { c : Bytes // c ≠ [] ∧ c.length ≤ maxGeonspBufferSize }

def recvInto (buffer : Bytes) (c : Chunk) : Bytes := c.1 ++ buffer.drop c.1.length

theorem length_recvInto (h : buffer.length = maxGeonspBufferSize) (c : Chunk) :
    (recvInto buffer c).length = maxGeonspBufferSize := by
  have hc := c.2.2
  simp only [recvInto, List.length_append, List.length_drop]
  omega

/-- One round of the loop of `handle_client`: what arrives, and what the
handler finds when it is called. -/
structure Round where
  chunk : Chunk
  io : DbIo
  clientAddr : Bytes
  db : Db.Database

/-- The string the handler reads; `beyond` is the memory behind the buffer. -/
def requestText (beyond buffer : Bytes) (c : Chunk) : Bytes := cstr (recvInto buffer c ++ beyond)

/-- The loop goes on only after the result 0. The bytes are then received a
second time, into the same place. -/
def serve (host : Host) (beyond : Bytes) (buffer : Bytes) (r : Round) : Option Bytes :=
  match nodeServerCallback host r.io r.clientAddr (requestText beyond buffer r.chunk) r.db with
  | .done 0 _ _ => some (recvInto buffer r.chunk)
  | _ => none

def freshBuffer : Bytes := List.replicate maxGeonspBufferSize 0

theorem serve_eq (h : serve host beyond buffer r = some buffer') :
    buffer' = recvInto buffer r.chunk := by
  unfold serve at h
  split at h
  · exact (Option.some.inj h).symm
  · contradiction

-- ---------------------------------------------------------------------------
-- What is left behind a message
-- ---------------------------------------------------------------------------

/-- The byte at `i` that the messages leave in the buffer: that of the last of
them that reaches it. -/
def leftAt (i : Nat) (byte : Option UInt8) : List Round → Option UInt8
  | [] => byte
  | r :: rs => leftAt i (if i < r.chunk.1.length then r.chunk.1[i]? else byte) rs

theorem getElem?_recvInto (buffer : Bytes) (c : Chunk) (i : Nat) :
    (recvInto buffer c)[i]? = if i < c.1.length then c.1[i]? else buffer[i]? := by
  unfold recvInto
  split
  case isTrue h => exact List.getElem?_append_left h
  case isFalse h =>
    rw [List.getElem?_append_right (Nat.le_of_not_lt h), List.getElem?_drop]
    congr 1
    omega

theorem length_of_run (hlen : buffer.length = maxGeonspBufferSize)
    (hrun : run (serve host beyond) buffer rs = some buffer') :
    buffer'.length = maxGeonspBufferSize :=
  invariant (I := fun b : Bytes => b.length = maxGeonspBufferSize)
    (fun _ _ _ hb hs => serve_eq hs ▸ length_recvInto hb _) hrun hlen

theorem getElem?_of_run (hrun : run (serve host beyond) buffer rs = some buffer') (i : Nat) :
    buffer'[i]? = leftAt i buffer[i]? rs := by
  induction rs generalizing buffer with
  | nil =>
    cases hrun
    rfl
  | cons r rs ih =>
    obtain ⟨next, hnext, hrest⟩ := run_cons.mp hrun
    rw [ih hrest, serve_eq hnext, leftAt, getElem?_recvInto]

-- ---------------------------------------------------------------------------
-- Residue
-- ---------------------------------------------------------------------------

theorem cstr_eq_nil_iff : cstr s = [] ↔ s.head?.getD 0 = 0 := by
  cases s with
  | nil => simp [cstr]
  | cons c cs => simp [cstr]

theorem requestText_eq_iff (beyond : Bytes) (hlen : buffer.length = maxGeonspBufferSize) (c : Chunk)
    (hc : c.1.length < maxGeonspBufferSize) :
    requestText beyond buffer c = cstr c.1 ↔ (0 : UInt8) ∈ c.1 ∨ buffer[c.1.length]? = some 0 := by
  have htext : requestText beyond buffer c = cstr (c.1 ++ (buffer.drop c.1.length ++ beyond)) := by
    simp [requestText, recvInto]
  rw [htext]
  by_cases hzero : (0 : UInt8) ∈ c.1
  · simp [hzero, cstr_append_of_mem]
  · have hin : c.1.length < buffer.length := by omega
    obtain ⟨b, hb⟩ : ∃ b, buffer[c.1.length]? = some b := ⟨_, List.getElem?_eq_getElem hin⟩
    have hhead : (buffer.drop c.1.length ++ beyond).head? = some b := by
      rw [List.head?_append, List.head?_drop, hb]
      rfl
    rw [cstr_append_of_notMem hzero, cstr_eq_self hzero, List.append_right_eq_self, cstr_eq_nil_iff,
      hhead, hb]
    simp [hzero]

/-- After two histories that left these buffers, the handler reads exactly the
received bytes, and so does the same with them. -/
def NoResidue (beyond buffer₁ buffer₂ : Bytes) (c : Chunk) : Prop :=
  (requestText beyond buffer₁ c = cstr c.1 ∧ requestText beyond buffer₂ c = cstr c.1) ∧
    ∀ host io clientAddr db,
      nodeServerCallback host io clientAddr (requestText beyond buffer₁ c) db =
        nodeServerCallback host io clientAddr (requestText beyond buffer₂ c) db

theorem noResidue_iff (h₁ : run (serve host beyond) freshBuffer rs₁ = some buffer₁)
    (h₂ : run (serve host beyond) freshBuffer rs₂ = some buffer₂) (c : Chunk)
    (hc : c.1.length < maxGeonspBufferSize) :
    NoResidue beyond buffer₁ buffer₂ c ↔
      (0 : UInt8) ∈ c.1 ∨
        leftAt c.1.length (some 0) rs₁ = some 0 ∧ leftAt c.1.length (some 0) rs₂ = some 0 := by
  have hfresh : freshBuffer.length = maxGeonspBufferSize := List.length_replicate
  have hbyte : freshBuffer[c.1.length]? = some 0 := List.getElem?_replicate_of_lt hc
  have hiff₁ := requestText_eq_iff beyond (length_of_run hfresh h₁) c hc
  have hiff₂ := requestText_eq_iff beyond (length_of_run hfresh h₂) c hc
  rw [getElem?_of_run h₁, hbyte] at hiff₁
  rw [getElem?_of_run h₂, hbyte] at hiff₂
  have hcond : (requestText beyond buffer₁ c = cstr c.1 ∧ requestText beyond buffer₂ c = cstr c.1) ↔
      (0 : UInt8) ∈ c.1 ∨
        leftAt c.1.length (some 0) rs₁ = some 0 ∧ leftAt c.1.length (some 0) rs₂ = some 0 := by
    rw [hiff₁, hiff₂, or_and_left]
  rw [← hcond]
  refine ⟨fun h => h.1, fun h => ⟨h, fun host io clientAddr db => ?_⟩⟩
  rw [h.1, h.2]

-- ---------------------------------------------------------------------------
-- A short message after a longer one
-- ---------------------------------------------------------------------------

def sampleHost : Host := ⟨bytes "Jan  1 2025, 00:00:00", .strict, fun _ => 0⟩

def sampleRound (c : Chunk) : Round := ⟨c, .ok, bytes "10.0.0.5", ⟨false, []⟩⟩

def versionRequest : Chunk := ⟨bytes "\x7b\"method\":\"GET_VERSION\" \x7d", by decide⟩

def openRequest : Chunk := ⟨bytes "\x7b\"method\":\"GET_VERSION\"", by decide⟩

theorem run_versionRequest :
    run (serve sampleHost []) freshBuffer [sampleRound versionRequest] =
      some (recvInto freshBuffer versionRequest) := by
  have htext : requestText [] freshBuffer versionRequest = versionRequest.1 := by decide +kernel
  have hdone : nodeServerCallback sampleHost .ok (bytes "10.0.0.5") versionRequest.1 ⟨false, []⟩ =
      .done 0 (serverProtoResponse true sampleHost.version) ⟨false, []⟩ := by decide +kernel
  have hserve : serve sampleHost [] freshBuffer (sampleRound versionRequest) =
      some (recvInto freshBuffer versionRequest) := by
    simp only [serve, sampleRound, htext, hdone]
  simp [run, hserve]

theorem noResidue_same_length :
    NoResidue [] (recvInto freshBuffer versionRequest) freshBuffer versionRequest :=
  have hrun : run (serve sampleHost []) freshBuffer [] = some freshBuffer := rfl
  (noResidue_iff run_versionRequest hrun versionRequest (by decide)).mpr (.inr (by decide))

theorem not_noResidue_openRequest :
    run (serve sampleHost []) freshBuffer [sampleRound versionRequest] =
        some (recvInto freshBuffer versionRequest) ∧
      nodeServerCallback sampleHost .ok (bytes "10.0.0.5")
          (requestText [] (recvInto freshBuffer versionRequest) openRequest) ⟨false, []⟩ =
        .done 0 (serverProtoResponse true sampleHost.version) ⟨false, []⟩ ∧
      nodeServerCallback sampleHost .ok (bytes "10.0.0.5")
          (requestText [] freshBuffer openRequest) ⟨false, []⟩ =
        .done (-1) (serverProtoResponse false (bytes "GEONSP: Invalid protocol message."))
          ⟨false, []⟩ ∧
      ¬ NoResidue [] (recvInto freshBuffer versionRequest) freshBuffer openRequest := by
  have hafter : requestText [] (recvInto freshBuffer versionRequest) openRequest =
      versionRequest.1 := by decide +kernel
  have hfirst : requestText [] freshBuffer openRequest = openRequest.1 := by decide +kernel
  rw [hafter, hfirst]
  refine ⟨run_versionRequest, by decide +kernel, by decide +kernel, fun h => ?_⟩
  have hbytes := h.1.1
  rw [hafter] at hbytes
  revert hbytes
  decide

end GeoNS.Geonsp
