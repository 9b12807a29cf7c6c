import GeoNS.CString
import GeoNS.Runs
import GeoNS.Geonsp.Protocol

/-!
# Peeked and consumed bytes

`handle_client` looks at the bytes that have arrived without removing them, gives
them to the callback, and removes as many of them with a second `recv`, before
which more may have arrived.
-/

namespace GeoNS.Socket.Chunks

open CString Runs

inductive Loop
  | peek
  | callback
  | consume (last : Bool)
  | ended
  deriving DecidableEq, Repr

/-- `coming` are the bytes of the client that have not arrived, and `pending` those
that have and were not removed. `presented` are the chunks the callback was called
with. -/
structure State where
  coming : Bytes
  pending : Bytes
  removed : Bytes
  buffer : Bytes
  bufferSizeLimit : Nat
  bufferSize : Int
  presented : List Bytes
  loop : Loop
  deriving DecidableEq, Repr

/-- What a call of the callback returns and does: the bytes it removes from the
socket, and what it leaves in the connection. -/
structure Effect where
  result : Int
  reads : Nat
  buffer : Bytes
  bufferSize : Int
  deriving DecidableEq, Repr

/-- `stop` is a `recv` with `MSG_PEEK` that returns 0 or -1. -/
inductive Label
  | arrive (n : Nat)
  | peek
  | stop (result : Int)
  | callback (e : Effect)
  | consume
  deriving DecidableEq, Repr

def State.show (s : State) (n : Nat) : Bytes := s.pending.take n

def stepPeek (s : State) : Option State :=
  let data := s.show s.bufferSizeLimit
  if s.loop = .peek ∧ s.pending ≠ [] then
    some { s with
      buffer := memcpy s.buffer 0 data
      bufferSize := data.length
      loop := if (data.length : Int) > 0 then .callback else .ended }
  else none

/-- The result is stored in a `char`. -/
def afterCallback (result : Int) : Loop :=
  let callbackResult := Int8.ofInt result
  if callbackResult = -1 then .consume true
  else if callbackResult = 0 then .consume false
  else .peek

def stepCallback (s : State) (e : Effect) : Option State :=
  if s.loop = .callback then
    some { s with
      removed := s.removed ++ s.show e.reads
      pending := s.pending.drop e.reads
      presented := s.presented ++ [s.buffer.take s.bufferSize.toNat]
      buffer := e.buffer
      bufferSize := e.bufferSize
      loop := afterCallback e.result }
  else none

/-- The second `recv` asks for `connection->buffer_size` bytes. -/
def stepConsume (s : State) : Option State :=
  match s.loop with
  | .consume last =>
    let data := s.show s.bufferSize.toNat
    some { s with
      removed := s.removed ++ data
      pending := s.pending.drop s.bufferSize.toNat
      buffer := memcpy s.buffer 0 data
      loop := if last then .ended else .peek }
  | _ => none

def step (s : State) : Label → Option State
  | .arrive n => some { s with pending := s.pending ++ s.coming.take n, coming := s.coming.drop n }
  | .peek => stepPeek s
  | .stop result => if s.loop = .peek ∧ result ≤ 0 then some { s with bufferSize := result, loop := .ended } else none
  | .callback e => stepCallback s e
  | .consume => stepConsume s

def begin (bufferSizeLimit : Nat) (stream : Bytes) : State where
  coming := stream
  pending := []
  removed := []
  buffer := List.replicate bufferSizeLimit 0
  bufferSizeLimit := bufferSizeLimit
  bufferSize := 0
  presented := []
  loop := .peek

/-- The callback returns 0 or -1, reads nothing from the socket and leaves
`connection->buffer_size` as it is. -/
def Quiet (s : State) : Label → Prop
  | .callback e => (e.result = 0 ∨ e.result = -1) ∧ e.reads = 0 ∧ e.bufferSize = s.bufferSize
  | _ => True

instance (s : State) : (l : Label) → Decidable (Quiet s l)
  | .callback e =>
    inferInstanceAs (Decidable ((e.result = 0 ∨ e.result = -1) ∧ e.reads = 0 ∧ e.bufferSize = s.bufferSize))
  | .arrive _ | .peek | .stop _ | .consume => isTrue trivial

-- ---------------------------------------------------------------------------
-- The gateway's handler
-- ---------------------------------------------------------------------------

section Handler

open Geonsp

theorem handleGetNodes_result (h : handleGetNodes host io db = .done result response db') : result = 0 := by
  unfold handleGetNodes at h
  split at h
  · cases h
    rfl
  split at h
  · contradiction
  split at h
  · contradiction
  split at h <;> cases h <;> rfl

theorem handleAddNode_result (h : handleAddNode host io clientAddr request db = .done result response db') :
    result = 0 := by
  unfold handleAddNode at h
  split at h
  · cases h
    rfl
  split at h
  · contradiction
  split at h
  · contradiction
  · cases h
    rfl

theorem nodeServerCallback_result
    (h : nodeServerCallback host io clientAddr buffer db = .done result response db') :
    result = 0 ∨ result = -1 := by
  unfold nodeServerCallback at h
  split at h
  · cases h
    exact .inr rfl
  dsimp only at h
  split at h
  · split at h
    · contradiction
    split at h
    · cases h
      exact .inl rfl
    split at h
    · exact .inl (handleGetNodes_result h)
    split at h
    · exact .inl (handleAddNode_result h)
    · cases h
      exact .inr rfl
  · cases h
    exact .inr rfl

theorem quiet_nodeServerCallback
    (h : nodeServerCallback host io clientAddr text db = .done result response db') (s : State)
    (buffer : Bytes) : Quiet s (.callback ⟨result, 0, buffer, s.bufferSize⟩) :=
  ⟨nodeServerCallback_result h, rfl, rfl⟩

end Handler

-- ---------------------------------------------------------------------------
-- The invariant
-- ---------------------------------------------------------------------------

def State.peeked (s : State) : Bytes := s.show s.bufferSize.toNat

def Loop.consuming : Loop → Bool
  | .consume _ => true
  | _ => false

def State.owed (s : State) : Bytes := if s.loop.consuming then s.peeked else []

theorem State.owed_eq_nil {s : State} (h : s.loop.consuming = false) : s.owed = [] := if_neg (by simp [h])

structure Inv (stream : Bytes) (s : State) : Prop where
  split : s.removed ++ s.pending ++ s.coming = stream
  presented : s.presented.flatten = s.removed ++ s.owed
  -- the bytes that were peeked are still the first ones at the socket
  peeked : s.loop = .callback ∨ s.loop.consuming → s.bufferSize.toNat ≤ s.pending.length
  buffer : s.loop = .callback → s.buffer.take s.bufferSize.toNat = s.peeked

theorem inv_begin (bufferSizeLimit : Nat) (stream : Bytes) : Inv stream (begin bufferSizeLimit stream) where
  split := rfl
  presented := rfl
  peeked := by rintro (h | h) <;> contradiction
  buffer h := nomatch h

theorem take_memcpy_zero (mem src : Bytes) : (memcpy mem 0 src).take src.length = src := by
  simp [memcpy]

theorem Inv.arrive (h : Inv stream s) (n : Nat) :
    Inv stream { s with pending := s.pending ++ s.coming.take n, coming := s.coming.drop n } := by
  have hkept (hloop : s.loop = .callback ∨ s.loop.consuming) :
      (s.pending ++ s.coming.take n).take s.bufferSize.toNat = s.peeked :=
    List.take_append_of_le_length (h.peeked hloop)
  refine ⟨by simpa using h.split, ?_, fun hloop => ?_, fun hloop => ?_⟩
  · refine h.presented.trans (congrArg (s.removed ++ ·) ?_)
    unfold State.owed
    split
    case isTrue hloop => exact (hkept (.inr hloop)).symm
    case isFalse => rfl
  · rw [List.length_append]
    exact Nat.le_add_right_of_le (h.peeked hloop)
  · exact (h.buffer hloop).trans (hkept (.inl hloop)).symm

theorem Inv.presented_eq (h : Inv stream s) (hloop : s.loop.consuming = false) :
    s.presented.flatten = s.removed := by
  rw [h.presented, State.owed_eq_nil hloop, List.append_nil]

theorem Inv.peek (h : Inv stream s) (hstep : stepPeek s = some t) : Inv stream t := by
  unfold stepPeek at hstep
  dsimp only at hstep
  split at hstep
  case isFalse => contradiction
  case isTrue hpeek =>
  obtain rfl := Option.some.inj hstep
  have hpresented := h.presented_eq (by rw [hpeek.1]; rfl)
  have hlength : (s.show s.bufferSizeLimit).length ≤ s.pending.length := by
    rw [State.show, List.length_take]
    exact Nat.min_le_right _ _
  have hshown : s.show (s.show s.bufferSizeLimit).length = s.show s.bufferSizeLimit := by
    simp only [State.show, List.length_take, ← List.take_take, List.take_length]
  refine ⟨h.split, ?_, fun _ => ?_, fun _ => ?_⟩
  · rw [State.owed_eq_nil]
    · exact hpresented.trans (List.append_nil _).symm
    · dsimp only
      split <;> rfl
  · rwa [Int.toNat_natCast]
  · rw [Int.toNat_natCast, take_memcpy_zero, State.peeked, Int.toNat_natCast]
    exact hshown.symm

theorem afterCallback_of_quiet (h : result = 0 ∨ result = -1) :
    ∃ last, afterCallback result = .consume last := by
  rcases h with rfl | rfl
  · exact ⟨false, rfl⟩
  · exact ⟨true, rfl⟩

theorem Inv.callback (h : Inv stream s) (hquiet : Quiet s (.callback e))
    (hstep : stepCallback s e = some t) : Inv stream t := by
  obtain ⟨hresult, hreads, hsize⟩ := hquiet
  unfold stepCallback at hstep
  split at hstep
  case isFalse => contradiction
  case isTrue hloop =>
  obtain rfl := Option.some.inj hstep
  obtain ⟨last, hafter⟩ := afterCallback_of_quiet hresult
  have hpresented := h.presented_eq (by rw [hloop]; rfl)
  have hnone : s.show e.reads = [] := by rw [hreads]; rfl
  rw [hafter, hnone, hreads, hsize, List.append_nil, List.drop_zero]
  refine ⟨h.split, ?_, fun _ => h.peeked (.inl hloop), fun h => nomatch h⟩
  rw [List.flatten_concat, hpresented, h.buffer hloop]
  rfl

theorem Inv.consume (h : Inv stream s) (hstep : stepConsume s = some t) : Inv stream t := by
  unfold stepConsume at hstep
  split at hstep
  case h_2 => contradiction
  case h_1 last hloop =>
  obtain rfl := Option.some.inj hstep
  have hpresented : s.presented.flatten = s.removed ++ s.peeked := by
    rw [h.presented, State.owed, hloop]
    rfl
  have hafter : (if last then Loop.ended else .peek).consuming = false := by cases last <;> rfl
  refine ⟨?_, ?_, ?_, ?_⟩
  · rw [State.show, List.append_assoc s.removed, List.take_append_drop]
    exact h.split
  · rw [State.owed_eq_nil hafter]
    exact hpresented.trans (List.append_nil _).symm
  · rintro (hloop | hloop)
    · cases last <;> contradiction
    · rw [hafter] at hloop
      contradiction
  · intro hloop
    cases last <;> contradiction

theorem inv_step (s : State) (l : Label) (t : State) (hquiet : Quiet s l) (h : Inv stream s)
    (hstep : step s l = some t) : Inv stream t := by
  cases l with
  | arrive n =>
    obtain rfl := Option.some.inj hstep
    exact h.arrive n
  | peek => exact h.peek hstep
  | stop result =>
    dsimp only [step] at hstep
    split at hstep
    case isFalse => contradiction
    case isTrue hstop =>
    obtain rfl := Option.some.inj hstep
    have hpresented := h.presented_eq (by rw [hstop.1]; rfl)
    refine ⟨h.split, hpresented.trans (List.append_nil _).symm, ?_, fun h => nomatch h⟩
    rintro (h | h) <;> contradiction
  | callback e => exact h.callback hquiet hstep
  | consume => exact h.consume hstep

-- ---------------------------------------------------------------------------
-- After the last callback
-- ---------------------------------------------------------------------------

def Loop.Leaving : Loop → Prop
  | .consume true | .ended => True
  | _ => False

theorem leaving_step (h : s.loop.Leaving) (hstep : step s l = some t) :
    t.loop.Leaving ∧ ∀ e, l ≠ .callback e := by
  cases l with
  | arrive n =>
    obtain rfl := Option.some.inj hstep
    exact ⟨h, nofun⟩
  | peek =>
    simp only [step, stepPeek] at hstep
    split at hstep
    case isTrue hpeek =>
      rw [hpeek.1] at h
      exact h.elim
    case isFalse => contradiction
  | stop result =>
    simp only [step] at hstep
    split at hstep
    case isTrue hpeek =>
      rw [hpeek.1] at h
      exact h.elim
    case isFalse => contradiction
  | callback e =>
    simp only [step, stepCallback] at hstep
    split at hstep
    case isTrue hloop =>
      rw [hloop] at h
      exact h.elim
    case isFalse => contradiction
  | consume =>
    simp only [step, stepConsume] at hstep
    split at hstep
    case h_1 last hloop =>
      obtain rfl := Option.some.inj hstep
      cases last with
      | true => exact ⟨trivial, nofun⟩
      | false =>
        rw [hloop] at h
        exact h.elim
    case h_2 => contradiction

theorem leaving_run (h : s.loop.Leaving) (hrun : run step s ls = some t) : ∀ e, .callback e ∉ ls := by
  induction ls generalizing s with
  | nil => exact fun e he => nomatch he
  | cons l ls ih =>
    obtain ⟨s', hstep, hrest⟩ := run_cons.mp hrun
    obtain ⟨hleaving, hne⟩ := leaving_step h hstep
    intro e he
    rcases List.mem_cons.mp he with rfl | he
    · exact hne e rfl
    · exact ih hleaving hrest e he

theorem leaving_callback (hresult : e.result = -1) (hstep : step s (.callback e) = some t) :
    t.loop.Leaving := by
  simp only [step, stepCallback] at hstep
  split at hstep
  case isTrue =>
    obtain rfl := Option.some.inj hstep
    rw [hresult]
    trivial
  case isFalse => contradiction

-- ---------------------------------------------------------------------------
-- Runs
-- ---------------------------------------------------------------------------

/-- The chunks presented in the run `ls` to `t` are the bytes it has removed, but for
one that the loop is about to remove. -/
structure Delivered (stream : Bytes) (ls : List Label) (t : State) : Prop where
  removed : t.removed <+: stream
  presented : t.presented.flatten = t.removed ++ t.owed
  settled : t.loop.consuming = false → t.presented.flatten = t.removed
  ahead : t.presented.flatten <+: stream
  last : ∀ before e after, ls = before ++ .callback e :: after → e.result = -1 → ∀ e', .callback e' ∉ after

theorem State.owed_prefix (s : State) : s.owed <+: s.pending := by
  unfold State.owed
  split
  · exact List.take_prefix _ _
  · exact List.nil_prefix

theorem delivered_of_run (hrun : run step (begin bufferSizeLimit stream) ls = some t)
    (hquiet : Each step Quiet (begin bufferSizeLimit stream) ls) : Delivered stream ls t := by
  have h : Inv stream t := invariant_each inv_step hrun hquiet (inv_begin bufferSizeLimit stream)
  have hsplit := h.split
  refine ⟨?_, h.presented, h.presented_eq, ?_, ?_⟩
  · exact ⟨t.pending ++ t.coming, by rw [← hsplit, List.append_assoc]⟩
  · obtain ⟨rest, hrest⟩ := t.owed_prefix
    refine ⟨rest ++ t.coming, ?_⟩
    rw [h.presented, ← hsplit, ← hrest]
    simp only [List.append_assoc]
  · rintro before e after rfl hresult
    rw [run_append] at hrun
    obtain ⟨s, -, hrest⟩ := Option.bind_eq_some_iff.mp hrun
    obtain ⟨s', hstep, hafter⟩ := run_cons.mp hrest
    exact leaving_run (leaving_callback hresult hstep) hafter

-- ---------------------------------------------------------------------------
-- A sample
-- ---------------------------------------------------------------------------

def sampleRun : List Label :=
  [.arrive 2, .peek, .callback ⟨0, 0, bytes "??\x00\x00", 2⟩, .arrive 3, .consume, .peek, .arrive 1,
    .callback ⟨-1, 0, bytes "cde\x00", 3⟩, .consume]

theorem delivered_sampleRun : ∃ t, run step (begin 4 (bytes "abcdef")) sampleRun = some t ∧
    t.presented = [bytes "ab", bytes "cde"] ∧ Delivered (bytes "abcdef") sampleRun t := by
  have hpresented : (run step (begin 4 (bytes "abcdef")) sampleRun).map State.presented =
      some [bytes "ab", bytes "cde"] := by decide +kernel
  obtain ⟨t, hrun, ht⟩ := Option.map_eq_some_iff.mp hpresented
  exact ⟨t, hrun, ht, delivered_of_run hrun (by decide +kernel)⟩

end GeoNS.Socket.Chunks
