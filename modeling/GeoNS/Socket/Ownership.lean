import GeoNS.Runs
import GeoNS.Socket.Removal

/-!
# Ownership of descriptors

While no callback closes a number that `handle_client` still uses, the accept
thread does not give up on connections that live, and the threads come to the
list of connections one at a time, every call on a connection's number finds the
socket that was accepted for it, and the socket is closed once, at the end.
-/

namespace GeoNS.Socket

open CString SlotTable Runs

-- ---------------------------------------------------------------------------
-- Runs
-- ---------------------------------------------------------------------------

/-- The steps that do not reach the defects: a request for a route that closes
nothing, an accept thread that gives up only on an empty list, and a list that
is left to the thread inside `remove_connection`. -/
def Calm (server : Http.HttpServer) (s : State) : Label → Prop
  | .memalloc ok => if ok then s.NoRemoval else s.head = none
  | .callback _ env text bufferSize => Http.LeavesOpen env server text bufferSize
  | .remove a => s.Outside a → s.NoRemoval
  | _ => True

instance (server : Http.HttpServer) (s : State) : (l : Label) → Decidable (Calm server s l)
  | .memalloc ok => inferInstanceAs (Decidable (if ok then s.NoRemoval else s.head = none))
  | .callback _ env text bufferSize =>
    inferInstanceAs (Decidable (Http.LeavesOpen env server text bufferSize))
  | .remove a => inferInstanceAs (Decidable (s.Outside a → s.NoRemoval))
  | .accept _ | .clientData _ | .create _ | .kill | .buffer .. | .peek .. | .call _ | .consume _
  | .openOther | .closeOther _ => isTrue trivial

theorem inv_initial (others : List Bool) : Inv (initial others) := by
  have hslot (n c : Nat) : slot (initial others).table n ≠ some (.socket c) := by
    intro hn
    have hmem := mem_of_slot hn
    rw [initial, List.mem_append, List.mem_map] at hmem
    rcases hmem with ⟨used, -, hused⟩ | hmem
    · cases used <;> simp at hused
    · simp at hmem
  have hopen (c : Nat) : ¬ (initial others).Closed c := by
    rintro ⟨u, hu, -⟩
    exact List.not_mem_nil hu
  constructor
  · rfl
  · trivial
  · intro _
    simp [initial, slot]
  · constructor
    · exact fun n c hn => absurd hn (hslot n c)
    · rintro c ⟨⟩
    · exact fun c hclosed => absurd hclosed (hopen c)
    · rintro u ⟨⟩
    · exact List.Pairwise.nil
  · intro c
    constructor
    · exact fun _ => ⟨rfl, rfl⟩
    · exact fun _ => rfl
    · exact fun _ => rfl
    · rintro ⟨⟩
    · refine iff_of_false (hopen c) ?_
      rintro ⟨⟨⟩, -⟩
    · rintro calls result ⟨⟩
  · refine ⟨[], List.nodup_nil, fun c => ?_, fun c hc => absurd hc List.not_mem_nil, .whole (fun a => ?_) rfl⟩
    · exact iff_of_false List.not_mem_nil id
    · cases a <;> rintro r ⟨⟩

theorem inv_step (server : Http.HttpServer) (s : State) (l : Label) (t : State)
    (hcalm : Calm server s l) (h : Inv s) (hstep : step server s l = some t) : Inv t := by
  unfold step at hstep
  rw [if_neg (by simp [h.safe])] at hstep
  cases l with
  | memalloc ok =>
    cases ok with
    | true => exact h.memalloc hcalm hstep
    | false => exact h.giveUp hcalm hstep
  | accept ok => exact h.accept hstep
  | clientData ok => exact h.clientData hstep
  | create ok => exact h.create hstep
  | kill => exact h.kill hstep
  | buffer c ok => exact h.buffer hstep
  | peek c got => exact h.peek hstep
  | callback c env text bufferSize => exact h.callback hcalm hstep
  | call c => exact h.call hstep
  | consume c => exact h.consume hstep
  | remove a => exact h.remove hcalm hstep
  | openOther =>
    obtain rfl := Option.some.inj hstep
    exact h.openOther
  | closeOther n =>
    dsimp only at hstep
    split at hstep
    case isTrue hn =>
      obtain rfl := Option.some.inj hstep
      exact h.closeOther hn.1 hn.2
    case isFalse => contradiction

/-- Every call for a connection found its own socket, none came after its close,
and a connection no thread works for any more had its socket closed. -/
structure Owned (s : State) : Prop where
  safe : s.crashed = false
  own : ∀ u ∈ s.uses, u.found = some (.socket u.connection)
  last : s.uses.Pairwise fun u v => u.connection = v.connection → u.call ≠ .close
  closed : ∀ c, (s.connections c).established → s.role c = .none → s.Closed c

theorem owned_of_calm {server : Http.HttpServer} {others : List Bool}
    (hrun : run (step server) (initial others) ls = some t)
    (hcalm : Each (step server) (Calm server) (initial others) ls) : Owned t := by
  have h : Inv t := invariant_each (inv_step server) hrun hcalm (inv_initial others)
  constructor
  · exact h.safe
  · exact h.sockets.own
  · exact h.sockets.last
  · intro c hestablished hrole
    rw [(h.connections c).closed, hrole]
    exact ⟨hestablished, trivial⟩

-- ---------------------------------------------------------------------------
-- Samples
-- ---------------------------------------------------------------------------

def quietServer : Http.HttpServer :=
  ⟨bytes "/srv/web", (Http.Router.get [] (bytes "/hello")
    fun _ _ => Http.sendHttpStatusBodyless 204).getD []⟩

def quietRun : List Label :=
  [.memalloc true, .accept true, .clientData true, .create true, .buffer 0 true, .peek 0 true,
    .callback 0 .ok (bytes "GET /hello HTTP/1.1\r\n\r\n") 23, .call 0, .call 0, .memalloc true,
    .consume 0, .peek 0 false, .remove (some 0), .remove (some 0), .remove (some 0), .remove (some 0)]

theorem owned_quietRun :
    ∃ t, run (step quietServer) (initial [true, true, true]) quietRun = some t ∧
      t.uses.map (·.call) = [.recv, .recv, .send, .recv, .recv, .close] ∧ Owned t := by
  have huses : (run (step quietServer) (initial [true, true, true]) quietRun).map
      (fun t => t.uses.map (·.call)) = some [.recv, .recv, .send, .recv, .recv, .close] := by
    decide +kernel
  obtain ⟨t, hrun, huses⟩ := Option.map_eq_some_iff.mp huses
  exact ⟨t, hrun, huses, owned_of_calm hrun (by decide +kernel)⟩

def aboutServer : Http.HttpServer := ⟨bytes "/srv/web", Http.setupGeonsHttpRouter []⟩

/-- The callback of the first client closes its number, which the second client
gets before the first one is done. -/
def aboutRun : List Label :=
  [.memalloc true, .accept true, .clientData true, .create true, .buffer 0 true, .peek 0 true,
    .callback 0 .ok (bytes "GET /about HTTP/1.1\r\n\r\n") 23, .call 0, .call 0, .call 0,
    .memalloc true, .accept true, .consume 0, .peek 0 false, .remove (some 0), .remove (some 0)]

theorem not_owned_aboutRun :
    ∃ t, run (step aboutServer) (initial [true, true, true]) aboutRun = some t ∧
      ⟨0, .close, some (.socket 1)⟩ ∈ t.uses ∧ ¬ Owned t := by
  have huses : (run (step aboutServer) (initial [true, true, true]) aboutRun).map
      (fun t => decide (⟨0, .close, some (.socket 1)⟩ ∈ t.uses)) = some true := by
    decide +kernel
  obtain ⟨t, hrun, huses⟩ := Option.map_eq_some_iff.mp huses
  have hmem : ⟨0, .close, some (.socket 1)⟩ ∈ t.uses := of_decide_eq_true huses
  exact ⟨t, hrun, hmem, fun h => absurd (h.own _ hmem) (by simp)⟩

end GeoNS.Socket
