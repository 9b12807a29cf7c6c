import GeoNS.Socket.Killing

/-!
# Calm shutdowns

Where the threads of a server leave it alone once somebody kills it, the server
and its connections are released once, and used no more.
-/

namespace GeoNS.Socket.Lifecycle

open LinkedList Runs

-- ---------------------------------------------------------------------------
-- The invariant
-- ---------------------------------------------------------------------------

/-- What was released so far was released once, and not used since. -/
structure Sound (v : Server) : Prop where
  safe : v.sys.crashed = false
  unused : v.late = false
  nodup : v.freed.Nodup
  gone : ∀ c ∈ v.freed, (v.sys.connections c).freed

theorem Sound.append (h : Sound v) (hfreed : Freed v.sys u.sys ds) (hsafe : u.sys.crashed = false)
    (hunused : u.late = false) (hlog : u.freed = v.freed ++ ds) : Sound u where
  safe := hsafe
  unused := hunused
  nodup := by
    rw [hlog, List.nodup_append]
    refine ⟨h.nodup, hfreed.nodup, ?_⟩
    rintro c hc _ hd rfl
    have hlive := hfreed.live c hd
    rw [h.gone c hc] at hlive
    contradiction
  gone c hc := by
    rw [hlog, List.mem_append] at hc
    rcases hc with hc | hc
    · exact hfreed.kept c (h.gone c hc)
    · exact hfreed.gone c hc

def Main.past : Main → Which → Bool
  | .between, w | .killing .http _, w | .removing .http .., w => w = .gateway
  | .ended, _ => true
  | _, _ => false

theorem Main.reached_of_past {m : Main} (h : m.past w) : m.reached w := by
  cases m with
  | killing w' | removing w' => cases w' <;> cases w <;> first | rfl | contradiction
  | _ => cases w <;> first | rfl | contradiction

inductive Fate (m : Main) (w : Which) (v : Server) : Prop
  | serving (hm : m.reached w = false) (hkept : v.releases = 0) (h : Tracked v.sys)
  | killing (current : Option Nat) (hm : m.reached w = false) (hkept : v.releases = 0)
      (hacceptor : v.sys.acceptor = .killing current) (h : KillingAt v.sys current)
  | removing (c : Nat) (stage : Stage) (current : Option Nat) (hm : m.reached w = false)
      (hkept : v.releases = 0) (hacceptor : v.sys.acceptor = .killRemoving c stage current)
      (h : RemovingAt v.sys c stage current)
  | ended (hm : m.reached w = false) (hreleased : v.releases = 1) (hacceptor : v.sys.acceptor = .ended)
  | mainKilling (current : Option Nat) (hm : m = .killing w current) (hkept : v.releases = 0)
      (h : KillingAt v.sys current)
  | mainRemoving (c : Nat) (stage : Stage) (current : Option Nat) (hm : m = .removing w c stage current)
      (hkept : v.releases = 0) (h : RemovingAt v.sys c stage current)
  | past (hm : m.past w) (hreleased : v.releases ≤ 1)

theorem reached_killing (w : Which) (current : Option Nat) : (Main.killing w current).reached w := by
  cases w <;> rfl

theorem reached_removing (w : Which) (c : Nat) (stage : Stage) (current : Option Nat) :
    (Main.removing w c stage current).reached w := by
  cases w <;> rfl

theorem Fate.releases_le (h : Fate m w v) : v.releases ≤ 1 := by
  cases h with
  | serving _ hkept | killing _ _ hkept | removing _ _ _ _ hkept | mainKilling _ _ hkept
  | mainRemoving _ _ _ _ hkept => exact hkept ▸ Nat.zero_le 1
  | ended _ hreleased => exact Nat.le_of_eq hreleased
  | past _ hreleased => exact hreleased

theorem Fate.pass (h : Fate m w v)
    (hm : m.reached w = false ∧ m'.reached w = false ∨ m.past w ∧ m'.past w) : Fate m' w v := by
  rcases hm with ⟨hm, hm'⟩ | ⟨hm, hm'⟩
  · cases h with
    | serving _ hkept h => exact .serving hm' hkept h
    | killing current _ hkept hacceptor h => exact .killing current hm' hkept hacceptor h
    | removing c stage current _ hkept hacceptor h =>
      exact .removing c stage current hm' hkept hacceptor h
    | ended _ hreleased hacceptor => exact .ended hm' hreleased hacceptor
    | mainKilling current hkilling =>
      rw [hkilling, reached_killing] at hm
      contradiction
    | mainRemoving c stage current hremoving =>
      rw [hremoving, reached_removing] at hm
      contradiction
    | past hpast =>
      rw [Main.reached_of_past hpast] at hm
      contradiction
  · exact .past hm' h.releases_le

structure Kept (s : State) : Prop where
  sound : ∀ w, Sound (s.server w)
  fate : ∀ w, Fate s.main w (s.server w)

theorem Kept.set (h : Kept s) (hsound : Sound v) (hfate : Fate m w v)
    (hothers : ∀ w', w' ≠ w → ∀ v, Fate s.main w' v → Fate m w' v) : Kept (s.set w v m) := by
  constructor
  · intro w'
    by_cases hw : w' = w
    · subst hw
      simpa [State.set] using hsound
    · simpa [State.set, hw] using h.sound w'
  · intro w'
    by_cases hw : w' = w
    · subst hw
      simpa [State.set] using hfate
    · simpa [State.set, hw] using hothers w' hw _ (h.fate w')

-- ---------------------------------------------------------------------------
-- Threads
-- ---------------------------------------------------------------------------

theorem Tracked.thread (h : Tracked s) (hcalm : CalmThread s l) (hstep : threadStep s l = some t) :
    (Tracked t ∨ ∃ current, t.crashed = false ∧ t.acceptor = .killing current ∧ KillingAt t current) ∧
      Freed s t (freedBy s l) ∧ (∀ c ∈ writes s l, (s.connections c).freed = false) ∧
      s.acceptor ≠ .killing none := by
  have hkilling : s.acceptor ≠ .killing none := by
    intro hacceptor
    have hserving := h.serving
    rw [hacceptor] at hserving
    contradiction
  have hnothing {l : Label} (hl : writes s l = none) :
      ∀ c ∈ writes s l, (s.connections c).freed = false := by simp [hl]
  cases l with
  | memalloc ok =>
    cases ok with
    | true =>
      obtain ⟨hnext, hfreed⟩ := h.memalloc hcalm hstep
      exact ⟨.inl hnext, hfreed, hnothing rfl, hkilling⟩
    | false =>
      obtain ⟨l, hl⟩ := h.whole hcalm
      simp only [threadStep, stepMemalloc] at hstep
      split at hstep
      case h_2 => contradiction
      case h_1 hidle =>
      obtain rfl : { s with acceptor := .killing s.head } = t := Option.some.inj hstep
      refine ⟨.inr ⟨s.head, h.safe, rfl, ?_⟩, freed_nil fun _ => rfl, hnothing rfl, hkilling⟩
      exact hl.killingAt.congr ⟨rfl, rfl, rfl⟩ rfl
  | accept ok =>
    obtain ⟨⟨hnext, hfreed⟩, hlive⟩ := h.accept hstep
    exact ⟨.inl hnext, hfreed, hlive, hkilling⟩
  | clientData ok =>
    obtain ⟨⟨hnext, hfreed⟩, hlive⟩ := h.clientData hstep
    refine ⟨.inl hnext, hfreed, ?_, hkilling⟩
    cases ok with
    | true => exact hlive
    | false => exact hnothing rfl
  | create ok =>
    obtain ⟨hnext, hfreed⟩ := h.create hstep
    exact ⟨.inl hnext, hfreed, hnothing rfl, hkilling⟩
  | kill =>
    have hserving := h.serving
    simp only [threadStep, stepKill] at hstep
    split at hstep
    case h_3 => contradiction
    all_goals
      rename_i hacceptor
      rw [hacceptor] at hserving
      contradiction
  | buffer c ok =>
    obtain ⟨hnext, hfreed⟩ := h.buffer hstep
    exact ⟨.inl hnext, hfreed, hnothing rfl, hkilling⟩
  | peek c got =>
    obtain ⟨hnext, hfreed⟩ := h.peek hstep
    exact ⟨.inl hnext, hfreed, hnothing rfl, hkilling⟩
  | callback c calls result =>
    obtain ⟨hnext, hfreed⟩ := h.callback hstep
    exact ⟨.inl hnext, hfreed, hnothing rfl, hkilling⟩
  | call c reads =>
    obtain ⟨hnext, hfreed⟩ := h.call hstep
    exact ⟨.inl hnext, hfreed, hnothing rfl, hkilling⟩
  | consume c =>
    obtain ⟨hnext, hfreed⟩ := h.consume hstep
    exact ⟨.inl hnext, hfreed, hnothing rfl, hkilling⟩
  | remove a =>
    obtain ⟨hnext, hfreed⟩ := h.remove hcalm.1 hstep
    exact ⟨.inl hnext, hfreed, hnothing rfl, hkilling⟩

theorem closing_cases (hclosing : closing s.acceptor) (hcalm : CalmThread s l)
    (hstep : threadStep s l = some t) : l = .kill ∨ l = .remove none := by
  cases l with
  | kill => exact .inl rfl
  | remove a =>
    cases a with
    | none => exact .inr rfl
    | some c =>
      rw [hcalm.2 (by simp)] at hclosing
      contradiction
  | memalloc ok | accept ok | clientData ok | create ok =>
    cases hacceptor : s.acceptor <;> rw [hacceptor] at hclosing <;>
      simp [threadStep, stepMemalloc, stepAccept, stepClientData, stepCreate, closing, hacceptor] at hstep hclosing
  | buffer | peek | callback | call | consume =>
    have hopen : closing s.acceptor = false := hcalm
    rw [hopen] at hclosing
    contradiction

theorem use_late {v : Server} (hunused : v.late = false) (hkept : v.releases = 0) : v.use.late = false := by
  simp [Server.use, hunused, hkept]

theorem Sound.threadStep (h : Sound v) (hthread : v.thread l = some u) :
    threadStep v.sys l = some u.sys := by
  rw [Server.thread, if_neg (by simp [h.safe])] at hthread
  obtain ⟨t, hstep, rfl⟩ := Option.map_eq_some_iff.mp hthread
  exact hstep

theorem Sound.thread (h : Sound v) (hkept : v.releases = 0) (hthread : v.thread l = some u) :
    u.releases = releasedBy v.sys l ∧
      (Freed v.sys u.sys (freedBy v.sys l) → u.sys.crashed = false →
        (∀ c ∈ writes v.sys l, (v.sys.connections c).freed = false) → Sound u) := by
  rw [Server.thread, if_neg (by simp [h.safe])] at hthread
  obtain ⟨t, hstep, rfl⟩ := Option.map_eq_some_iff.mp hthread
  refine ⟨?_, fun hfreed hsafe hwrites => h.append hfreed hsafe ?_ rfl⟩
  · exact (congrArg (· + releasedBy v.sys l) hkept).trans (Nat.zero_add _)
  · have hany : ((writes v.sys l).any fun c => (v.sys.connections c).freed) = false := by
      cases hc : writes v.sys l with
      | none => rfl
      | some c => exact hwrites c hc
    simp only [hany, Bool.or_false]
    split
    · exact use_late h.unused hkept
    · exact h.unused

theorem Fate.kill (hm : m.reached w = false) (hsound : Sound v) (hkept : v.releases = 0)
    (hacceptor : v.sys.acceptor = .killing current) (h : KillingAt v.sys current)
    (hthread : v.thread .kill = some u) : Sound u ∧ Fate m w u := by
  have hstep := hsound.threadStep hthread
  obtain ⟨hreleases, hnext⟩ := hsound.thread hkept hthread
  obtain ⟨sys, releases, freed, late⟩ := u
  cases current with
  | none =>
    simp only [threadStep, stepKill, hacceptor, Option.some.injEq] at hstep
    subst hstep
    refine ⟨hnext (freed_nil fun _ => rfl) hsound.safe (by simp [writes]), .ended hm ?_ rfl⟩
    rw [hreleases, releasedBy, if_pos hacceptor]
  | some c =>
    obtain ⟨hlive, hremoving⟩ := h.next
    simp only [threadStep, stepKill, hacceptor, Socket.State.reading, hlive, Bool.false_eq_true,
      if_false, Option.some.injEq] at hstep
    subst hstep
    refine ⟨hnext (freed_nil fun _ => rfl) hsound.safe (by simp [writes]), ?_⟩
    refine .removing c .find (v.sys.next c) hm ?_ rfl (hremoving.congr ⟨rfl, rfl, rfl⟩ rfl)
    rw [hreleases, releasedBy, if_neg (by simp [hacceptor])]

theorem Fate.remove (hm : m.reached w = false) (hsound : Sound v) (hkept : v.releases = 0)
    (hacceptor : v.sys.acceptor = .killRemoving c stage current) (h : RemovingAt v.sys c stage current)
    (hthread : v.thread (.remove none) = some u) : Sound u ∧ Fate m w u := by
  have hstep := hsound.threadStep hthread
  obtain ⟨hreleases, hnext⟩ := hsound.thread hkept hthread
  obtain ⟨l, hfront, hcurrent⟩ := h
  obtain ⟨t, after, hremove, htaken⟩ := hfront.removeStep
  have hsafe : t.crashed = false := htaken.crashed.trans hsound.safe
  have hfreedBy : freedBy v.sys (.remove none) = freedNode v.sys c stage := by
    simp only [freedBy, Socket.State.removal, hacceptor]
  rw [hfreedBy] at hnext
  obtain ⟨sys, releases, freed, late⟩ := u
  cases after with
  | none =>
    simp only [threadStep, stepRemove, hacceptor, hremove, Option.some.injEq] at hstep
    subst hstep
    have hwhole : Whole t l := htaken.went
    refine ⟨hnext ?_ hsafe (by simp [writes]), .killing current hm hreleases rfl ?_⟩
    · exact ⟨htaken.freed.nodup, htaken.freed.live, htaken.freed.gone, htaken.freed.kept⟩
    · exact ⟨l, hwhole.congr ⟨rfl, rfl, rfl⟩ fun _ => rfl, hcurrent⟩
  | some stage' =>
    simp only [threadStep, stepRemove, hacceptor, hremove, Option.some.injEq] at hstep
    subst hstep
    have hfront' : Front t l c stage' := htaken.went
    refine ⟨hnext ?_ hsafe (by simp [writes]), .removing c stage' current hm hreleases rfl ?_⟩
    · exact ⟨htaken.freed.nodup, htaken.freed.live, htaken.freed.gone, htaken.freed.kept⟩
    · exact ⟨l, hfront'.congr ⟨rfl, rfl, rfl⟩ rfl, hcurrent⟩

theorem Fate.thread (h : Fate m w v) (hm : m.reached w = false) (hsound : Sound v)
    (hcalm : CalmThread v.sys l) (hthread : v.thread l = some u) : Sound u ∧ Fate m w u := by
  have hstep := hsound.threadStep hthread
  cases h with
  | serving _ hkept h =>
    obtain ⟨hreleases, hsound'⟩ := hsound.thread hkept hthread
    obtain ⟨hnext, hfreed, hlive, hkilling⟩ := h.thread hcalm hstep
    have hkept' : u.releases = 0 := by
      rw [hreleases]
      cases l with
      | kill => exact if_neg hkilling
      | _ => rfl
    rcases hnext with htracked | ⟨current, hsafe, hacceptor, hat⟩
    · exact ⟨hsound' hfreed htracked.safe hlive, .serving hm hkept' htracked⟩
    · exact ⟨hsound' hfreed hsafe hlive, .killing current hm hkept' hacceptor hat⟩
  | killing current _ hkept hacceptor h =>
    rcases closing_cases (by rw [hacceptor]; rfl) hcalm hstep with rfl | rfl
    · exact Fate.kill hm hsound hkept hacceptor h hthread
    · simp [threadStep, stepRemove, hacceptor] at hstep
  | removing c stage current _ hkept hacceptor h =>
    rcases closing_cases (by rw [hacceptor]; rfl) hcalm hstep with rfl | rfl
    · simp [threadStep, stepKill, hacceptor] at hstep
    · exact Fate.remove hm hsound hkept hacceptor h hthread
  | ended _ hreleased hacceptor =>
    rcases closing_cases (by rw [hacceptor]; rfl) hcalm hstep with rfl | rfl
    · simp [threadStep, stepKill, hacceptor] at hstep
    · simp [threadStep, stepRemove, hacceptor] at hstep
  | mainKilling current hkilling =>
    rw [hkilling, reached_killing] at hm
    contradiction
  | mainRemoving c stage current hremoving =>
    rw [hremoving, reached_removing] at hm
    contradiction
  | past hpast =>
    rw [Main.reached_of_past hpast] at hm
    contradiction

-- ---------------------------------------------------------------------------
-- The main thread
-- ---------------------------------------------------------------------------

/-- A list that `kill_geons_server` comes to is whole. -/
theorem Fate.whole (h : Fate m w v) (hm : m.reached w = false) (hended : v.sys.acceptor ≠ .ended)
    (hcalm : v.sys.NoRemoval) : v.releases = 0 ∧ ∃ l, Whole v.sys l := by
  cases h with
  | serving _ hkept h => exact ⟨hkept, h.whole hcalm⟩
  | killing current _ hkept _ h =>
    obtain ⟨l, hl, -⟩ := h
    exact ⟨hkept, l, hl⟩
  | removing c stage current _ hkept hacceptor h =>
    obtain ⟨l, hl, -⟩ := h
    obtain rfl : stage = .find := hcalm.1 (c, stage) (by simp [Socket.State.removal, hacceptor])
    exact ⟨hkept, c :: l, hl⟩
  | ended _ _ hacceptor => exact absurd hacceptor hended
  | mainKilling current hkilling =>
    rw [hkilling, reached_killing] at hm
    contradiction
  | mainRemoving c stage current hremoving =>
    rw [hremoving, reached_removing] at hm
    contradiction
  | past hpast =>
    rw [Main.reached_of_past hpast] at hm
    contradiction

theorem Sound.use (h : Sound v) (hkept : v.releases = 0) : Sound v.use :=
  ⟨h.safe, use_late h.unused hkept, h.nodup, h.gone⟩

theorem Kept.enter (h : Kept s) (hm : s.main.reached w = false)
    (hcalm : (s.server w).sys.acceptor ≠ .ended ∧ (s.server w).sys.NoRemoval)
    (hothers : ∀ w', w' ≠ w → ∀ v, Fate s.main w' v → Fate (.killing w (s.server w).sys.head) w' v) :
    Kept (s.enter w) := by
  obtain ⟨hkept, l, hl⟩ := (h.fate w).whole hm hcalm.1 hcalm.2
  refine h.set ((h.sound w).use hkept) ?_ hothers
  exact .mainKilling _ rfl hkept hl.killingAt

inductive Main.At (w : Which) : Main → Prop
  | killing (current : Option Nat) : Main.At w (.killing w current)
  | removing (c : Nat) (stage : Stage) (current : Option Nat) : Main.At w (.removing w c stage current)

theorem Main.At.others (h : Main.At w m) (h' : Main.At w m') (hw : w' ≠ w) (hfate : Fate m w' v) :
    Fate m' w' v := by
  refine hfate.pass ?_
  cases h <;> cases h' <;> cases w <;> cases w' <;> simp_all [Main.reached, Main.past]

theorem Fate.at_killing (h : Fate (.killing w current) w v) : v.releases = 0 ∧ KillingAt v.sys current := by
  cases h with
  | mainKilling current' hm hkept h =>
    cases hm
    exact ⟨hkept, h⟩
  | mainRemoving _ _ _ hm => contradiction
  | past hm => cases w <;> contradiction
  | serving hm | killing _ hm | removing _ _ _ hm | ended hm =>
    rw [reached_killing] at hm
    contradiction

theorem Fate.at_removing (h : Fate (.removing w c stage current) w v) :
    v.releases = 0 ∧ RemovingAt v.sys c stage current := by
  cases h with
  | mainKilling _ hm => contradiction
  | mainRemoving _ _ _ hm hkept h =>
    cases hm
    exact ⟨hkept, h⟩
  | past hm => cases w <;> contradiction
  | serving hm | killing _ hm | removing _ _ _ hm | ended hm =>
    rw [reached_removing] at hm
    contradiction

theorem Sound.removeStep (h : Sound v) (hkept : v.releases = 0) (hfront : Front v.sys l c stage) :
    ∃ u after, v.removeStep c stage = (u, after) ∧ Sound u ∧ u.releases = 0 ∧ Went u.sys l c after := by
  obtain ⟨t, after, hremove, htaken⟩ := hfront.removeStep
  have hused : (if usesHead stage then v.use else v).late = false ∧
      (if usesHead stage then v.use else v).releases = 0 := by
    split
    · exact ⟨use_late h.unused hkept, hkept⟩
    · exact ⟨h.unused, hkept⟩
  refine ⟨{ (if usesHead stage then v.use else v) with
    sys := t, freed := v.freed ++ freedNode v.sys c stage }, after, ?_, ?_, hused.2, htaken.went⟩
  · simp only [Server.removeStep, hremove]
  · exact h.append htaken.freed (htaken.crashed.trans h.safe) hused.1 rfl

theorem Kept.main (h : Kept s) (hcalm : Calm s .main) (hstep : stepMain s = some t) : Kept t := by
  unfold stepMain at hstep
  split at hstep
  case h_1 hm =>
    obtain rfl := Option.some.inj hstep
    refine h.enter (by rw [hm]; rfl) (hcalm .gateway (by simp [State.enters, hm])) fun w' hw v hv => ?_
    rw [hm] at hv
    cases w' with
    | gateway => contradiction
    | http => exact hv.pass (.inl ⟨rfl, rfl⟩)
  case h_2 w hm =>
    obtain rfl := Option.some.inj hstep
    have hfate := h.fate w
    rw [hm] at hfate
    obtain ⟨hkept, hat⟩ := hfate.at_killing
    have hsound : Sound (s.server w).release :=
      ⟨(h.sound w).safe, use_late (h.sound w).unused hkept, (h.sound w).nodup, (h.sound w).gone⟩
    have hreleased : (s.server w).release.releases ≤ 1 := Nat.le_of_eq (congrArg (· + 1) hkept)
    refine h.set hsound (.past ?_ hreleased) fun w' hw v hv => ?_
    · cases w <;> rfl
    · rw [hm] at hv
      refine hv.pass ?_
      cases w <;> cases w' <;> simp_all [Main.reached, Main.past]
  case h_3 w c hm =>
    have hfate := h.fate w
    rw [hm] at hfate
    obtain ⟨hkept, hat⟩ := hfate.at_killing
    obtain ⟨hlive, hremoving⟩ := hat.next
    simp only [hlive, Bool.false_eq_true, if_false, Option.some.injEq] at hstep
    subst hstep
    refine h.set (h.sound w) (.mainRemoving c .find _ rfl hkept hremoving) fun w' hw _ => ?_
    rw [hm]
    exact Main.At.others (.killing _) (.removing ..) hw
  case h_4 w c stage current hm =>
    have hfate := h.fate w
    rw [hm] at hfate
    obtain ⟨hkept, l, hfront, hcurrent⟩ := hfate.at_removing
    obtain ⟨u, after, hremove, hsound, hkept', hwent⟩ := (h.sound w).removeStep hkept hfront
    rw [hremove] at hstep
    cases after with
    | none =>
      obtain rfl := Option.some.inj hstep
      refine h.set hsound (.mainKilling current rfl hkept' ⟨l, hwent, hcurrent⟩) fun w' hw _ => ?_
      rw [hm]
      exact Main.At.others (.removing ..) (.killing _) hw
    | some stage' =>
      obtain rfl := Option.some.inj hstep
      refine h.set hsound (.mainRemoving c stage' current rfl hkept' ⟨l, hwent, hcurrent⟩) fun w' hw _ => ?_
      rw [hm]
      exact Main.At.others (.removing ..) (.removing ..) hw
  case h_5 hm =>
    split at hstep
    case isTrue hhttp =>
      obtain rfl := Option.some.inj hstep
      refine h.enter (by rw [hm]; rfl) (hcalm .http (by simp [State.enters, hm, hhttp])) fun w' hw v hv => ?_
      rw [hm] at hv
      cases w' with
      | gateway => exact hv.pass (.inr ⟨rfl, rfl⟩)
      | http => contradiction
    case isFalse hhttp =>
      obtain rfl := Option.some.inj hstep
      exact ⟨h.sound, fun w => .past rfl (h.fate w).releases_le⟩
  case h_6 => contradiction

-- ---------------------------------------------------------------------------
-- Runs
-- ---------------------------------------------------------------------------

theorem kept_begin (withHttp : Bool) : Kept (begin withHttp) := by
  have houtside (a : Option Nat) : Socket.State.Outside (initial []) a := by
    cases a <;> rintro r ⟨⟩
  have hlist : ListOk (initial []) [] := by
    refine ⟨List.nodup_nil, fun c => ?_, fun c hc => absurd hc List.not_mem_nil, .whole houtside rfl⟩
    exact iff_of_false List.not_mem_nil id
  have htracked : Tracked (initial []) := by
    refine ⟨rfl, rfl, fun _ _ => ⟨rfl, rfl⟩, fun _ _ => rfl, ?_, [], hlist⟩
    rintro c calls result ⟨⟩
  constructor
  · exact fun _ => ⟨rfl, rfl, List.nodup_nil, fun c hc => absurd hc List.not_mem_nil⟩
  · exact fun _ => .serving rfl rfl htracked

theorem kept_step (s : State) (m : Move) (t : State) (hcalm : Calm s m) (h : Kept s)
    (hstep : step s m = some t) : Kept t := by
  cases m with
  | thread w l =>
    simp only [step] at hstep
    split at hstep
    case isFalse => contradiction
    case isTrue =>
    obtain ⟨u, hthread, rfl⟩ := Option.map_eq_some_iff.mp hstep
    obtain ⟨hsound, hfate⟩ := (h.fate w).thread hcalm.1 (h.sound w) hcalm.2 hthread
    exact h.set hsound hfate fun _ _ _ hv => hv
  | main =>
    simp only [step] at hstep
    split at hstep
    · contradiction
    · exact h.main hcalm hstep

theorem proper_of_calm (hrun : run step (begin withHttp) ms = some t)
    (hcalm : Each step Calm (begin withHttp) ms) (w : Which) : Proper (t.server w) := by
  have h : Kept t := invariant_each kept_step hrun hcalm (kept_begin withHttp)
  exact ⟨(h.fate w).releases_le, (h.sound w).nodup, (h.sound w).unused, (h.sound w).safe⟩

-- ---------------------------------------------------------------------------
-- Samples
-- ---------------------------------------------------------------------------

/-- A client is being served and the next one waited for when the main thread
kills both servers, and no thread goes on. -/
def quietShutdown : List Move :=
  [.memalloc true, .accept true, .clientData true, .create true, .memalloc true, .buffer 0 true,
    .peek 0 true, .callback 0 [.recv, .send] 1, .call 0 true, .call 0 false].map (.thread .gateway) ++
  List.replicate 14 .main

theorem proper_quietShutdown :
    ∃ t, run step (begin true) quietShutdown = some t ∧ t.main = .ended ∧
      (t.server .gateway).freed = [0, 1] ∧ ∀ w, Proper (t.server w) := by
  have hended : (run step (begin true) quietShutdown).map
      (fun t => (t.main, (t.server .gateway).freed)) = some (.ended, [0, 1]) := by
    decide +kernel
  obtain ⟨t, hrun, hended⟩ := Option.map_eq_some_iff.mp hended
  obtain ⟨hmain, hfreed⟩ := Prod.mk.inj hended
  exact ⟨t, hrun, hmain, hfreed, proper_of_calm hrun (by decide +kernel)⟩

/-- The main thread kills the gateway while its accept thread waits for a
client, which then comes. -/
def lateClient : List Move :=
  [.thread .gateway (.memalloc true)] ++ List.replicate 7 .main ++ [.thread .gateway (.accept true)]

/-- The accept thread gives up and releases its server, which the main thread
then releases again. -/
def releasedTwice : List Move :=
  [.thread .gateway (.memalloc false), .thread .gateway .kill, .main, .main]

theorem not_proper_lateClient :
    (∃ t, run step (begin false) lateClient = some t ∧ (t.server .gateway).late ∧
      ¬ Proper (t.server .gateway)) ∧
    ∃ t, run step (begin false) releasedTwice = some t ∧ (t.server .gateway).releases = 2 ∧
      ¬ Proper (t.server .gateway) := by
  constructor
  · have hlate : (run step (begin false) lateClient).map (fun t => (t.server .gateway).late) =
        some true := by
      decide +kernel
    obtain ⟨t, hrun, hlate⟩ := Option.map_eq_some_iff.mp hlate
    refine ⟨t, hrun, hlate, fun h => ?_⟩
    rw [h.unused] at hlate
    contradiction
  · have htwice : (run step (begin false) releasedTwice).map
        (fun t => (t.server .gateway).releases) = some 2 := by
      decide +kernel
    obtain ⟨t, hrun, htwice⟩ := Option.map_eq_some_iff.mp htwice
    refine ⟨t, hrun, htwice, fun h => ?_⟩
    have hone := h.server
    rw [htwice] at hone
    contradiction

end GeoNS.Socket.Lifecycle
