import GeoNS.CArray
import GeoNS.Http.Containment

/-!
# The base directory

`init_io_system` fills `cwd` in one of four ways and cuts it behind its last slash.
The loop that cuts it counts down with an `unsigned short` and has no exit but a
slash.
-/

namespace GeoNS.Io

open CString LexicalPath Http.Containment

structure IsName (name : Bytes) : Prop where
  nonempty : name ≠ []
  noSlash : 47 ∉ name
  noNul : (0 : UInt8) ∉ name
  notDot : name ≠ bytes "."
  notDotDot : name ≠ bytes ".."

structure Directory where
  names : List Bytes
  ok : ∀ name ∈ names, IsName name

def Directory.path (d : Directory) : Bytes :=
  if d.names = [] then bytes "/" else d.names.flatMap (47 :: ·)

/-- Whether `/proc` is there, the absolute path its link holds, and the current
directory; the latter are `none` where they cannot be read. -/
structure Host where
  proc : Bool
  exe : Option { path : CStr // path.1.head? = some 47 }
  currentDir : Option Directory

def isAbsolutePath (path : Bytes) : Bool := path.head? == some 47

def getcwd (host : Host) (size : Nat) : Option Bytes :=
  host.currentDir.bind fun d => if d.path.length < size then some d.path else none

/-- `cwd` before the loop; `none` is a write outside of it. -/
def fillCwd (host : Host) (execPath : Bytes) : Option Bytes :=
  let cwd := List.replicate maxSysPathLength 0
  if host.proc then
    match host.exe with
    -- `readlink` writes no terminator
    | some exe => some (memcpy cwd 0 (exe.1.1.take maxSysPathLength))
    | none => some cwd
  else if execPath.head? = some 47 then some (strncpy maxSysPathLength execPath)
  else if 47 ∈ execPath then
    match getcwd host maxSysPathLength with
    | some path => strncat (memcpy cwd 0 (path ++ [0])) execPath.tail (maxSysPathLength - 1)
    | none => some cwd
  else some cwd

/-- The loop from the index `i` on; `none` is an access outside of `cwd`, or a loop
that does not end. -/
def trim (cwd : Bytes) : (fuel : Nat) → (i : UInt16) → Option Bytes
  | 0, _ => none
  | fuel + 1, i =>
    match cwd[i.toNat]? with
    | none => none
    | some c => if c = 47 then some cwd else trim (cwd.set i.toNat 0) fuel (i - 1)

def initIoSystem (host : Host) (execPath : Bytes) : Option Bytes :=
  (fillCwd host execPath).bind fun cwd =>
    (strlen cwd).bind fun length => trim cwd 65536 (UInt16.ofNat length - 1)

-- ---------------------------------------------------------------------------
-- Directories of paths
-- ---------------------------------------------------------------------------

def dirOf (path : Bytes) : Bytes := path.rdropWhile (· ≠ 47)

theorem dirOf_concat (path : Bytes) (c : UInt8) :
    dirOf (path ++ [c]) = if c = 47 then path ++ [c] else dirOf path := by
  unfold dirOf
  rw [List.rdropWhile_concat]
  by_cases hc : c = 47 <;> simp [hc]

theorem dirOf_append_slash (path rest : Bytes) : dirOf (path ++ 47 :: rest) = path ++ 47 :: dirOf rest := by
  induction rest using List.reverseRecOn with
  | nil =>
    rw [dirOf_concat, if_pos rfl]
    rfl
  | append_singleton rest c ih =>
    rw [← List.cons_append, ← List.append_assoc, dirOf_concat, dirOf_concat]
    split
    · simp
    · exact ih

theorem dirOf_longest (h : 47 ∈ path) : dirOf path <+: path ∧ (dirOf path).getLast? = some 47 ∧
    ∀ p, p <+: path → p.getLast? = some 47 → p <+: dirOf path := by
  induction path using List.reverseRecOn with
  | nil => cases h
  | append_singleton path c ih =>
    rw [dirOf_concat]
    split
    case isTrue hc =>
      subst hc
      exact ⟨List.prefix_rfl, List.getLast?_concat, fun p hp _ => hp⟩
    case isFalse hc =>
      have hpath : 47 ∈ path := by
        rw [List.mem_append, List.mem_singleton] at h
        exact h.resolve_right (Ne.symm hc)
      obtain ⟨hpre, hlast, hlongest⟩ := ih hpath
      refine ⟨hpre.trans (List.prefix_append _ _), hlast, fun p hp hp' => ?_⟩
      rcases List.prefix_concat_iff.mp hp with rfl | hp
      · rw [List.getLast?_concat] at hp'
        exact absurd (Option.some.inj hp') hc
      · exact hlongest p hp hp'

-- ---------------------------------------------------------------------------
-- The loop
-- ---------------------------------------------------------------------------

theorem trim_succ (h : cwd[i.toNat]? = some c) (fuel : Nat) :
    trim cwd (fuel + 1) i = if c = 47 then some cwd else trim (cwd.set i.toNat 0) fuel (i - 1) := by
  rw [trim, h]

theorem toNat_ofNat_length (h : n < maxSysPathLength) : (UInt16.ofNat n).toNat = n := by
  unfold maxSysPathLength at h
  rw [UInt16.toNat_ofNat']
  exact Nat.mod_eq_of_lt (by omega)

theorem ofNat_succ_sub_one (n : Nat) : UInt16.ofNat (n + 1) - 1 = UInt16.ofNat n := by
  rw [UInt16.ofNat_add]
  exact add_sub_cancel_right _ _

/-- The loop leaves the path's directory, or runs out of the array where the path
has no slash. -/
theorem trim_append (fuel : Nat) (path zeros : Bytes) (hlength : (path ++ zeros).length = maxSysPathLength)
    (hzeros : zeros ≠ []) (hfuel : path.length < fuel) :
    trim (path ++ zeros) fuel (UInt16.ofNat path.length - 1) =
      if 47 ∈ path then some (dirOf path ++ List.replicate (path.length - (dirOf path).length) 0 ++ zeros)
      else none := by
  induction path using List.reverseRecOn generalizing zeros fuel with
  | nil =>
    obtain ⟨fuel, rfl⟩ := Nat.exists_eq_succ_of_ne_zero (Nat.ne_of_gt hfuel)
    have hout : zeros[(UInt16.ofNat 0 - 1).toNat]? = none := by
      refine List.getElem?_eq_none ?_
      rw [List.nil_append] at hlength
      rw [hlength]
      decide
    simp only [List.length_nil, List.nil_append, trim, hout]
    rfl
  | append_singleton path c ih =>
    obtain ⟨fuel, rfl⟩ := Nat.exists_eq_succ_of_ne_zero (Nat.ne_of_gt (Nat.zero_lt_of_lt hfuel))
    have hlt : path.length < maxSysPathLength := by
      simp only [List.length_append, List.length_singleton] at hlength
      omega
    have hi : (UInt16.ofNat path.length).toNat = path.length := toNat_ofNat_length hlt
    have hget : (path ++ [c] ++ zeros)[(UInt16.ofNat path.length).toNat]? = some c := by
      rw [hi]
      simp
    rw [List.length_append, List.length_singleton, ofNat_succ_sub_one, trim_succ hget, dirOf_concat]
    by_cases hc : c = 47
    · simp [hc]
    · have hset : (path ++ [c] ++ zeros).set (UInt16.ofNat path.length).toNat 0 = path ++ 0 :: zeros := by
        rw [hi]
        simp
      have hrest := ih fuel (0 :: zeros) (by simpa using hlength) (List.cons_ne_nil _ _)
        (by simpa using hfuel)
      have hmem : 47 ∈ path ++ [c] ↔ 47 ∈ path := by simp [Ne.symm hc]
      rw [if_neg hc, if_neg hc, hset, hrest]
      simp only [hmem]
      split
      case isFalse => rfl
      case isTrue hslash =>
        have hle := (dirOf_longest hslash).1.length_le
        have hmore : path.length + 1 - (dirOf path).length = path.length - (dirOf path).length + 1 := by omega
        rw [hmore, List.replicate_succ']
        simp

def cut (cwd : Bytes) : Option Bytes :=
  (strlen cwd).bind fun length => trim cwd 65536 (UInt16.ofNat length - 1)

theorem cut_eq_none (h : (0 : UInt8) ∉ cwd) : cut cwd = none := by
  rw [cut, strlen, if_neg h, Option.bind_none]

theorem cut_holds (h : Holds cwd path) (hlength : cwd.length = maxSysPathLength) (hslash : 47 ∈ path) :
    ∃ cwd', cut cwd = some cwd' ∧ Holds cwd' (dirOf path) := by
  have hlt := h.length_lt
  have hstrlen := h.strlen_eq
  obtain ⟨hzero, t, rfl⟩ := h
  have htrim := trim_append 65536 path (0 :: t) hlength (List.cons_ne_nil _ _) (by
    rw [hlength] at hlt
    exact Nat.lt_trans hlt (by decide))
  rw [if_pos hslash] at htrim
  refine ⟨_, by rw [cut, hstrlen, Option.bind_some, htrim], ?_, ?_⟩
  · exact fun hmem => hzero ((dirOf_longest hslash).1.subset hmem)
  · refine ⟨List.replicate (path.length - (dirOf path).length) 0 ++ t, ?_⟩
    rw [List.append_assoc, List.append_cons, ← List.replicate_succ', List.replicate_succ, List.cons_append]

theorem cut_eq_none_of_holds (h : Holds cwd path) (hlength : cwd.length = maxSysPathLength)
    (hslash : 47 ∉ path) : cut cwd = none := by
  have hlt := h.length_lt
  have hstrlen := h.strlen_eq
  obtain ⟨-, t, rfl⟩ := h
  have htrim := trim_append 65536 path (0 :: t) hlength (List.cons_ne_nil _ _) (by
    rw [hlength] at hlt
    exact Nat.lt_trans hlt (by decide))
  rw [if_neg hslash] at htrim
  rw [cut, hstrlen, Option.bind_some, htrim]

-- ---------------------------------------------------------------------------
-- The four ways
-- ---------------------------------------------------------------------------

inductive Found
  | nothing
  | absolute (path : Bytes)
  | joined (d : Directory)

def found (host : Host) (execPath : Bytes) : Found :=
  if host.proc then
    match host.exe with
    | some exe => .absolute exe.1.1
    | none => .nothing
  else if execPath.head? = some 47 then .absolute execPath
  else if 47 ∈ execPath then
    match host.currentDir with
    | some d => .joined d
    | none => .nothing
  else .nothing

/-- The string is the directory of the path. One that is joined with the current
directory may be written in another way that every file system reads alike. -/
def Found.IsBase (execPath : Bytes) (dir : Bytes) : Found → Prop
  | .nothing => dir = []
  | .absolute path => dir = dirOf path
  | .joined d => dir.getLast? = some 47 ∧
    Alike (components dir) (components (dirOf (d.path ++ bytes "/" ++ execPath)))

/-- The loop ends inside of `cwd`, with the directory of the executable in it. -/
def LeavesBaseDir (host : Host) (execPath : Bytes) : Prop :=
  ∃ cwd dir, initIoSystem host execPath = some cwd ∧ Holds cwd dir ∧ (found host execPath).IsBase execPath dir

/-- The first byte can go where it is a step to the directory itself, or in the root a
step to its parent. -/
def Glued (d : Directory) (execPath : Bytes) : Prop :=
  let first := execPath.takeWhile (· ≠ 47)
  first = bytes "." ∨ d.names = [] ∧ first = bytes ".."

instance (d : Directory) (execPath : Bytes) : Decidable (Glued d execPath) :=
  inferInstanceAs (Decidable (_ ∨ _))

def Found.Fits (execPath : Bytes) : Found → Prop
  | .nothing => False
  | .absolute path => path.length < maxSysPathLength
  | .joined d => d.path.length + execPath.length ≤ maxSysPathLength ∧ Glued d execPath

theorem initIoSystem_eq (h : fillCwd host execPath = some cwd) : initIoSystem host execPath = cut cwd := by
  rw [initIoSystem, h]
  rfl

theorem initIoSystem_eq_none (h : fillCwd host execPath = none) : initIoSystem host execPath = none := by
  rw [initIoSystem, h]
  rfl

theorem base_absolute_iff (hfound : found host execPath = .absolute path) (habsolute : path.head? = some 47)
    (hzero : (0 : UInt8) ∉ path) (hfill : fillCwd host execPath = some (strncpy maxSysPathLength path)) :
    LeavesBaseDir host execPath ↔ path.length < maxSysPathLength := by
  have hslash : 47 ∈ path := List.mem_of_head? habsolute
  rw [LeavesBaseDir, hfound, initIoSystem_eq hfill]
  constructor
  · rintro ⟨cwd, dir, hcut, -, -⟩
    by_contra hlong
    have hfull : (0 : UInt8) ∉ strncpy maxSysPathLength path := by
      rw [strncpy, List.take_append_of_le_length (Nat.le_of_not_lt hlong)]
      exact fun hmem => hzero (List.mem_of_mem_take hmem)
    rw [cut_eq_none hfull] at hcut
    contradiction
  · intro hlt
    obtain ⟨cwd, hcut, hholds⟩ := cut_holds (holds_strncpy hzero hlt) (length_strncpy _ _) hslash
    exact ⟨cwd, dirOf path, hcut, hholds, rfl⟩

theorem not_base_nothing (hfill : fillCwd host execPath = some (List.replicate maxSysPathLength 0)) :
    ¬ LeavesBaseDir host execPath := by
  have hempty : Holds (List.replicate maxSysPathLength 0) [] :=
    holds_append_zeros List.not_mem_nil (n := maxSysPathLength) (by decide)
  rintro ⟨cwd, dir, hinit, -, -⟩
  rw [initIoSystem_eq hfill, cut_eq_none_of_holds hempty List.length_replicate (by simp)] at hinit
  contradiction

-- ---------------------------------------------------------------------------
-- A path that is joined
-- ---------------------------------------------------------------------------

theorem strtok_names {names : List Bytes} (h : ∀ name ∈ names, IsName name) :
    strtok 47 (names.flatMap (47 :: ·)) = names := by
  induction names using List.reverseRecOn with
  | nil => rfl
  | append_singleton names name ih =>
    have hname := h name (List.mem_append_right _ (List.mem_singleton_self name))
    rw [List.flatMap_append, List.flatMap_singleton, strtok_append_delim,
      ih fun name' h' => h name' (List.mem_append_left _ h'), strtok_word hname.noSlash hname.nonempty]

theorem components_word {w : Bytes} (hslash : 47 ∉ w) :
    components w =
      if w = [] ∨ w = bytes "." then [] else if w = bytes ".." then [.parent] else [.name w] := by
  by_cases hnil : w = []
  · rw [hnil]
    rfl
  by_cases hdot : w = bytes "."
  · rw [hdot]
    decide
  by_cases hdotdot : w = bytes ".."
  · rw [hdotdot]
    decide
  rw [components, strtok_word hslash hnil]
  simp [hnil, hdot, hdotdot]

theorem components_names {names : List Bytes} (h : ∀ name ∈ names, IsName name) :
    components (names.flatMap (47 :: ·)) = names.map .name := by
  rw [components, strtok_names h, List.filter_eq_self.mpr fun name hname => by simpa using (h name hname).notDot]
  exact List.map_congr_left fun name hname => if_neg (h name hname).notDotDot

theorem components_path (d : Directory) : components d.path = d.names.map .name := by
  unfold Directory.path
  split
  case isTrue hnil =>
    rw [hnil]
    decide
  case isFalse => exact components_names d.ok

theorem path_ne_nil (d : Directory) : d.path ≠ [] := by
  unfold Directory.path
  split
  case isTrue => decide
  case isFalse hne =>
    obtain ⟨name, names, hnames⟩ := List.exists_cons_of_ne_nil hne
    rw [hnames]
    exact List.cons_ne_nil _ _

theorem IsName.append {name w : Bytes} (h : IsName name) (hslash : 47 ∉ w) (hzero : (0 : UInt8) ∉ w) :
    IsName (name ++ w) := by
  obtain ⟨c, cs, rfl⟩ := List.exists_cons_of_ne_nil h.nonempty
  constructor
  · exact List.cons_ne_nil _ _
  · exact fun hmem => (List.mem_append.mp hmem).elim h.noSlash hslash
  · exact fun hmem => (List.mem_append.mp hmem).elim h.noNul hzero
  · intro hdot
    have hdot : c :: (cs ++ w) = [46] := hdot
    obtain ⟨rfl, hrest⟩ := List.cons.inj hdot
    obtain ⟨rfl, -⟩ := List.append_eq_nil_iff.mp hrest
    exact h.notDot rfl
  · intro hdotdot
    have hdotdot : c :: (cs ++ w) = [46, 46] := hdotdot
    obtain ⟨rfl, hrest⟩ := List.cons.inj hdotdot
    cases cs with
    | nil => exact h.notDot rfl
    | cons c cs =>
      have hrest : c :: (cs ++ w) = [46] := hrest
      obtain ⟨rfl, hnil⟩ := List.cons.inj hrest
      obtain ⟨rfl, -⟩ := List.append_eq_nil_iff.mp hnil
      exact h.notDotDot rfl

theorem components_glued {d : Directory} (hnames : d.names = front ++ [name]) {w : Bytes} (hslash : 47 ∉ w)
    (hzero : (0 : UInt8) ∉ w) : components (d.path ++ w) = front.map .name ++ [.name (name ++ w)] := by
  have hname : IsName name := d.ok name (hnames ▸ List.mem_append_right _ (List.mem_singleton_self name))
  have hok : ∀ name' ∈ front ++ [name ++ w], IsName name' := by
    intro name' hmem
    rw [List.mem_append, List.mem_singleton] at hmem
    rcases hmem with hmem | rfl
    · exact d.ok name' (hnames ▸ List.mem_append_left _ hmem)
    · exact hname.append hslash hzero
  have hpath : d.path ++ w = (front ++ [name ++ w]).flatMap (47 :: ·) := by
    rw [Directory.path, if_neg (by simp [hnames]), hnames]
    simp
  rw [hpath, components_names hok, List.map_append]
  rfl

theorem components_root {d : Directory} (hnil : d.names = []) (w : Bytes) :
    components (d.path ++ w) = components w := by
  rw [Directory.path, if_pos hnil]
  exact components_join [] w

theorem belowRoot_root_iff {c : UInt8} {w : Bytes} (hfirst : 47 ∉ c :: w) (rest : List (Component Bytes)) :
    belowRoot (components w ++ rest) = belowRoot (components (c :: w) ++ rest) ↔
      c :: w = bytes "." ∨ c :: w = bytes ".." := by
  rw [components_word fun hmem => hfirst (List.mem_cons_of_mem c hmem), components_word hfirst]
  simp only [List.cons_ne_nil, false_or]
  by_cases hdot : c :: w = bytes "."
  · have hw : w = [] := (List.cons.inj (hdot : c :: w = [46])).2
    rw [if_pos (.inl hw), if_pos hdot]
    exact iff_of_true rfl (.inl hdot)
  by_cases hdotdot : c :: w = bytes ".."
  · have hw : w = bytes "." := (List.cons.inj (hdotdot : c :: w = [46, 46])).2
    rw [if_pos (.inr hw), if_neg hdot, if_pos hdotdot]
    exact iff_of_true rfl (.inr hdotdot)
  rw [if_neg hdot, if_neg hdotdot]
  -- the name that is entered is longer than the word, or there is none
  refine iff_of_false (fun heq => ?_) (not_or.mpr ⟨hdot, hdotdot⟩)
  rw [List.singleton_append, belowRoot_name] at heq
  have hshort := length_belowRoot_le rest
  have hlength := congrArg List.length heq
  rw [List.length_cons] at hlength
  split at heq
  · rw [List.nil_append] at heq
    rw [heq, List.length_cons] at hshort
    omega
  split at heq
  · have hrest : belowRoot rest = .name (c :: w) :: rest := heq
    rw [hrest, List.length_cons] at hshort
    omega
  · obtain ⟨hword, -⟩ := List.cons.inj heq
    injection hword with hword
    have hsame := congrArg List.length hword
    rw [List.length_cons] at hsame
    omega

theorem belowRoot_name_iff {d : Directory} (hne : d.names ≠ []) {c : UInt8} {w : Bytes} (hfirst : 47 ∉ c :: w)
    (hzero : (0 : UInt8) ∉ c :: w) (rest : List (Component Bytes)) :
    belowRoot (components (d.path ++ w) ++ rest) =
        belowRoot (components d.path ++ components (c :: w) ++ rest) ↔ c :: w = bytes "." := by
  obtain ⟨front, name, hnames⟩ := (List.eq_nil_or_concat' d.names).resolve_left hne
  have hbelow (rest : List (Component Bytes)) (name : Bytes) :
      belowRoot (front.map Component.name ++ .name name :: rest) = front.map .name ++ .name name :: rest := by
    cases front <;> rfl
  rw [components_glued hnames (fun hmem => hfirst (List.mem_cons_of_mem c hmem))
    fun hmem => hzero (List.mem_cons_of_mem c hmem), components_path, hnames, List.map_append, List.map_singleton]
  simp only [List.append_assoc, List.cons_append, hbelow, List.append_cancel_left_eq]
  rw [components_word hfirst]
  simp only [List.cons_ne_nil, false_or]
  constructor
  · intro heq
    obtain ⟨hname, hrest⟩ := List.cons.inj heq
    injection hname with hname
    have hw : w = [] := List.append_right_eq_self.mp hname
    have hlength := congrArg List.length hrest
    by_contra hdot
    rw [if_neg hdot] at hlength
    split at hlength <;> simp at hlength
  · intro hdot
    have hw : w = [] := (List.cons.inj (hdot : c :: w = [46])).2
    rw [if_pos hdot, hw, List.append_nil]
    rfl

/-- The path without the first byte of `execPath` names the directory of the whole
one exactly if it is glued well. -/
theorem alike_dirOf_iff (d : Directory) (hslash : 47 ∈ execPath) (hrelative : execPath.head? ≠ some 47)
    (hzero : (0 : UInt8) ∉ execPath) :
    Alike (components (dirOf (d.path ++ execPath.tail)))
        (components (dirOf (d.path ++ bytes "/" ++ execPath))) ↔ Glued d execPath := by
  obtain ⟨first, t, rfl, hfirst⟩ := List.eq_append_cons_of_mem hslash
  cases first with
  | nil => exact absurd rfl hrelative
  | cons c w =>
    have hnul : (0 : UInt8) ∉ c :: w := fun hmem => hzero (List.mem_append_left _ hmem)
    have hword : ∀ x ∈ c :: w, decide (x ≠ 47) = true := fun x hx => by
      simpa using fun h0 : x = 47 => hfirst (h0 ▸ hx)
    have htake : (c :: w ++ 47 :: t).takeWhile (· ≠ 47) = c :: w := by
      rw [List.takeWhile_append_of_pos hword]
      simp
    have hglued : dirOf (d.path ++ (c :: w ++ 47 :: t).tail) = d.path ++ w ++ bytes "/" ++ dirOf t := by
      rw [List.cons_append, List.tail_cons, ← List.append_assoc, dirOf_append_slash, List.append_assoc _ (bytes "/")]
      rfl
    have hjoined : dirOf (d.path ++ bytes "/" ++ (c :: w ++ 47 :: t)) =
        d.path ++ bytes "/" ++ (c :: w) ++ bytes "/" ++ dirOf t := by
      rw [← List.append_assoc, dirOf_append_slash, List.append_assoc _ (bytes "/") (dirOf t)]
      rfl
    rw [Glued, htake, hglued, hjoined, components_join, components_join, components_join, alike_iff]
    by_cases hroot : d.names = []
    · have hpath : components d.path = [] := by rw [components_path, hroot, List.map_nil]
      rw [components_root hroot, hpath, List.nil_append, belowRoot_root_iff hfirst]
      simp [hroot]
    · rw [belowRoot_name_iff hroot hfirst hnul]
      simp [hroot]

theorem Directory.path_noNul (d : Directory) : (0 : UInt8) ∉ d.path := by
  unfold Directory.path
  split
  case isTrue => decide
  case isFalse =>
    intro hmem
    obtain ⟨name, hname, hmem⟩ := List.mem_flatMap.mp hmem
    rcases List.mem_cons.mp hmem with h0 | hmem
    · exact absurd h0 (by decide)
    · exact (d.ok name hname).noNul hmem

/-- `getcwd` writes the path into an array that it fits in. -/
theorem holds_getcwd (hzero : (0 : UInt8) ∉ path) (h : path.length < n) :
    Holds (memcpy (List.replicate n 0) 0 (path ++ [0])) path ∧
      (memcpy (List.replicate n 0) 0 (path ++ [0])).length = n := by
  refine ⟨⟨hzero, (List.replicate n 0).drop (path.length + 1), by simp [memcpy]⟩, ?_⟩
  simp only [memcpy, List.take_zero, List.nil_append, List.length_append, List.length_singleton,
    List.length_drop, List.length_replicate]
  omega

theorem fillCwd_joined (hproc : host.proc = false) (hdir : host.currentDir = some d)
    (hrelative : execPath.head? ≠ some 47) (hslash : 47 ∈ execPath) :
    fillCwd host execPath =
      if d.path.length < maxSysPathLength then
        strncat (memcpy (List.replicate maxSysPathLength 0) 0 (d.path ++ [0])) execPath.tail (maxSysPathLength - 1)
      else some (List.replicate maxSysPathLength 0) := by
  rw [fillCwd, hproc, if_neg Bool.false_ne_true, if_neg hrelative, if_pos hslash, getcwd, hdir, Option.bind_some]
  by_cases hroom : d.path.length < maxSysPathLength
  · rw [if_pos hroom, if_pos hroom]
  · rw [if_neg hroom, if_neg hroom]

/-- The directory is read where its path fits, and `execPath` without its first byte
is appended where it fits behind. -/
theorem base_joined_iff (d : Directory) (hproc : host.proc = false) (hdir : host.currentDir = some d)
    (hrelative : execPath.head? ≠ some 47) (hslash : 47 ∈ execPath) (hzero : (0 : UInt8) ∉ execPath) :
    LeavesBaseDir host execPath ↔
      d.path.length + execPath.length ≤ maxSysPathLength ∧ Glued d execPath := by
  have hfound : found host execPath = .joined d := by simp [found, hproc, hrelative, hslash, hdir]
  have hfill := fillCwd_joined hproc hdir hrelative hslash
  have hmax : maxSysPathLength = 1024 := rfl
  have htail : 47 ∈ execPath.tail ∧ (0 : UInt8) ∉ execPath.tail ∧ execPath.length = execPath.tail.length + 1 := by
    cases execPath with
    | nil => cases hslash
    | cons c t =>
      exact ⟨(List.mem_cons.mp hslash).resolve_left fun hc => hrelative (hc ▸ rfl),
        fun hmem => hzero (List.mem_cons_of_mem c hmem), rfl⟩
  obtain ⟨htail, htailZero, hlength⟩ := htail
  have hpos := List.length_pos_of_mem htail
  have hdirPos := List.length_pos_of_ne_nil (path_ne_nil d)
  by_cases hroom : d.path.length < maxSysPathLength
  case neg =>
    rw [if_neg hroom] at hfill
    exact iff_of_false (not_base_nothing hfill) fun h => by omega
  rw [if_pos hroom] at hfill
  obtain ⟨hholds, hsize⟩ := holds_getcwd d.path_noNul hroom
  obtain ⟨hlt, cwd, hcat, hcwd, hcwdSize⟩ | ⟨hge, hnone⟩ :=
    hholds.strncat_cases htailZero (n := maxSysPathLength - 1) (.inl (by omega))
  case inr =>
    rw [hnone] at hfill
    refine iff_of_false ?_ fun h => by omega
    rintro ⟨cwd, dir, hinit, -, -⟩
    rw [initIoSystem_eq_none hfill] at hinit
    contradiction
  have hfits : d.path.length + execPath.length ≤ maxSysPathLength := by omega
  rw [hcat] at hfill
  have hmem : 47 ∈ d.path ++ execPath.tail := List.mem_append_right _ htail
  obtain ⟨cwd', hcut, hholds'⟩ := cut_holds hcwd (hcwdSize.trans hsize) hmem
  rw [and_iff_right hfits, ← alike_dirOf_iff d hslash hrelative hzero, LeavesBaseDir, hfound, initIoSystem_eq hfill]
  constructor
  · rintro ⟨cwd'', dir, hcut', hdir', -, halike⟩
    obtain rfl := Option.some.inj (hcut.symm.trans hcut')
    rwa [hdir'.unique hholds'] at halike
  · intro halike
    exact ⟨cwd', _, hcut, hholds', (dirOf_longest hmem).2.1, halike⟩

-- ---------------------------------------------------------------------------
-- Every host
-- ---------------------------------------------------------------------------

/-- The link's text in an array of zeros, as `strncpy` leaves it. -/
theorem memcpy_zeros_take (n : Nat) (src : Bytes) : memcpy (List.replicate n 0) 0 (src.take n) = strncpy n src := by
  have hpad : n - min n src.length = min (n - src.length) n := by omega
  rw [memcpy, strncpy, List.take_append, List.take_replicate, List.drop_replicate, List.length_take]
  simp [hpad]

theorem leavesBaseDir_iff (host : Host) (execPath : CStr) :
    LeavesBaseDir host execPath.1 ↔ (found host execPath.1).Fits execPath.1 := by
  obtain ⟨execPath, hzero⟩ := execPath
  by_cases hproc : host.proc
  · cases hexe : host.exe with
    | none =>
      have hfound : found host execPath = .nothing := by simp [found, hproc, hexe]
      rw [hfound]
      exact iff_of_false (not_base_nothing (by simp [fillCwd, hproc, hexe])) id
    | some exe =>
      have hfound : found host execPath = .absolute exe.1.1 := by simp [found, hproc, hexe]
      rw [base_absolute_iff hfound exe.2 exe.1.2 (by simp [fillCwd, hproc, hexe, memcpy_zeros_take]), hfound]
      rfl
  rw [Bool.not_eq_true] at hproc
  by_cases habsolute : execPath.head? = some 47
  · have hfound : found host execPath = .absolute execPath := by simp [found, hproc, habsolute]
    rw [base_absolute_iff hfound habsolute hzero (by simp [fillCwd, hproc, habsolute]), hfound]
    rfl
  by_cases hslash : 47 ∈ execPath
  · cases hdir : host.currentDir with
    | none =>
      have hfound : found host execPath = .nothing := by simp [found, hproc, habsolute, hslash, hdir]
      rw [hfound]
      exact iff_of_false (not_base_nothing (by simp [fillCwd, hproc, habsolute, hslash, getcwd, hdir])) id
    | some d =>
      have hfound : found host execPath = .joined d := by simp [found, hproc, habsolute, hslash, hdir]
      rw [base_joined_iff d hproc hdir habsolute hslash hzero, hfound]
      rfl
  · have hfound : found host execPath = .nothing := by simp [found, hproc, habsolute, hslash]
    rw [hfound]
    exact iff_of_false (not_base_nothing (by simp [fillCwd, hproc, habsolute, hslash])) id

theorem isName_srv : IsName (bytes "srv") := by constructor <;> decide

def srvHost : Host where
  proc := false
  exe := none
  currentDir := some ⟨[bytes "srv"], List.forall_mem_singleton.mpr isName_srv⟩

/-- A bare name has no slash, and `bin/geons` becomes `/srvin/geons`. -/
theorem srv_not_leavesBaseDir :
    ¬ LeavesBaseDir srvHost (bytes "geons") ∧ ¬ LeavesBaseDir srvHost (bytes "bin/geons") := by
  constructor
  · exact not_base_nothing rfl
  · rw [base_joined_iff _ rfl rfl] <;> decide +kernel

end GeoNS.Io
