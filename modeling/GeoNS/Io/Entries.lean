import GeoNS.CArray
import GeoNS.Http.Server

/-!
# Directory listings

`get_directory_entries` grows its text by one line for each entry. The space of a
line is estimated with the name in it once, while the line has it twice.
-/

namespace GeoNS.Io.Entries

open CString

/-- The entries that are read, and the bytes that each `realloc` adds to the block,
`none` where it fails. -/
structure Directory where
  opendir : Option (List CStr)
  realloc : Nat → Option (Nat → UInt8)

structure Listing where
  isSuccess : Bool
  body : Option Bytes
  bodySize : Nat

def resize (block : Bytes) (size : Nat) (fresh : Nat → UInt8) : Bytes :=
  (block ++ (List.range (size - block.length)).map fresh).take size

def isSkipped (name : Bytes) : Bool := name == bytes "." || name == bytes ".."

/-- `last` is the byte before the terminator of `uri`. -/
def formatLine (uri name : Bytes) (last : UInt8) : Bytes :=
  bytes "<a href=\"" ++ uri ++ (if last = 47 then [] else bytes "/") ++ name ++ bytes "\">" ++ name ++
    bytes "</a><br>\n"

/-- One entry; `none` is a read before the start of `uri`. -/
def appendEntry (uri name : Bytes) (fresh : Nat → UInt8) (body : Option Bytes) (bodySize : Nat) :
    Option (Bytes × Nat) :=
  let entryLength := name.length + uri.length + 64
  let block := resize (body.getD []) (bodySize + entryLength + 1) fresh
  uri.getLast?.map fun last =>
    let block := memcpy block bodySize (snprintf (entryLength + 1) (formatLine uri name last) ++ [0])
    (block, bodySize + (cstr (block.drop bodySize)).length)

def readEntries (d : Directory) (uri : Bytes) : List CStr → (i : Nat) → Option Bytes → Nat → Option Listing
  | [], _, body, bodySize => some ⟨true, body, bodySize⟩
  | name :: names, i, body, bodySize =>
    if isSkipped name.1 then readEntries d uri names i body bodySize
    else
      match d.realloc i with
      | none => some ⟨false, none, 0⟩
      | some fresh =>
        (appendEntry uri name.1 fresh body bodySize).bind fun (block, bodySize) =>
          readEntries d uri names (i + 1) (some block) bodySize

def getDirectoryEntries (d : Directory) (uri : Bytes) : Option Listing :=
  match d.opendir with
  | none => some ⟨false, none, 0⟩
  | some names => readEntries d uri names 0 none 0

-- ---------------------------------------------------------------------------
-- What a listing is
-- ---------------------------------------------------------------------------

def lineOf (uri name : Bytes) : Bytes :=
  bytes "<a href=\"" ++ uri ++ (if uri.getLast? = some 47 then [] else bytes "/") ++ name ++ bytes "\">" ++ name ++
    bytes "</a><br>\n"

def listed (names : List CStr) : List Bytes := (names.map Subtype.val).filter (!isSkipped ·)

/-- The block holds the text; before the first entry there is none. -/
def Carries (body : Option Bytes) (text : Bytes) : Prop :=
  match body with
  | none => text = []
  | some block => Holds block text

/-- A success has a line for each entry, in the order in which they are read; a
failure has nothing. -/
def Listing.Complete (uri : Bytes) (names : List CStr) (l : Listing) : Prop :=
  if l.isSuccess then
    Carries l.body ((listed names).flatMap (lineOf uri)) ∧
      l.bodySize = ((listed names).flatMap (lineOf uri)).length
  else l.body = none ∧ l.bodySize = 0

/-- The text is complete, and no byte outside of `uri` is read. -/
def Lists (d : Directory) (uri : Bytes) : Prop :=
  ∃ l, getDirectoryEntries d uri = some l ∧ l.Complete uri (d.opendir.getD [])

def Allocates (d : Directory) (names : List CStr) : Prop := ∀ i < (listed names).length, (d.realloc i).isSome

def Short (uri name : Bytes) : Prop := name.length + (if uri.getLast? = some 47 then 0 else 1) ≤ 44

-- ---------------------------------------------------------------------------
-- One entry
-- ---------------------------------------------------------------------------

theorem length_lineOf (uri name : Bytes) :
    (lineOf uri name).length =
      2 * name.length + uri.length + (if uri.getLast? = some 47 then 0 else 1) + 20 := by
  have hopen : (bytes "<a href=\"").length = 9 := by decide
  have hmiddle : (bytes "\">").length = 2 := by decide
  have hclose : (bytes "</a><br>\n").length = 9 := by decide
  have hslash : (if uri.getLast? = some 47 then [] else bytes "/").length =
      if uri.getLast? = some 47 then 0 else 1 := by split <;> rfl
  simp only [lineOf, List.length_append, hopen, hmiddle, hclose, hslash]
  omega

theorem lineOf_noNul (huri : (0 : UInt8) ∉ uri) (hname : (0 : UInt8) ∉ name) :
    (0 : UInt8) ∉ lineOf uri name := by
  have hslash : (0 : UInt8) ∉ (if uri.getLast? = some 47 then [] else bytes "/") := by split <;> decide
  have hopen : (0 : UInt8) ∉ bytes "<a href=\"" := by decide
  have hmiddle : (0 : UInt8) ∉ bytes "\">" := by decide
  have hclose : (0 : UInt8) ∉ bytes "</a><br>\n" := by decide
  simp only [lineOf, List.mem_append, not_or]
  exact ⟨⟨⟨⟨⟨⟨hopen, huri⟩, hslash⟩, hname⟩, hmiddle⟩, hname⟩, hclose⟩

def cutLine (uri name : Bytes) : Bytes := (lineOf uri name).take (name.length + uri.length + 64)

theorem cutLine_eq_iff : cutLine uri name = lineOf uri name ↔ Short uri name := by
  rw [cutLine, List.take_eq_self_iff, length_lineOf, Short]
  omega

theorem cutLine_noNul (huri : (0 : UInt8) ∉ uri) (hname : (0 : UInt8) ∉ name) : (0 : UInt8) ∉ cutLine uri name :=
  fun hmem => lineOf_noNul huri hname (List.mem_of_mem_take hmem)

theorem text_cutLine_noNul (huri : (0 : UInt8) ∉ uri) (hname : (0 : UInt8) ∉ name) (htext : (0 : UInt8) ∉ text) :
    (0 : UInt8) ∉ text ++ cutLine uri name := by
  rw [List.mem_append]
  exact fun hmem => hmem.elim htext (cutLine_noNul huri hname)

theorem carries_none : Carries none [] := rfl

theorem Carries.unique (h : Carries body text) (h' : Carries body text') : text = text' := by
  cases body with
  | none => exact Eq.trans h (Eq.symm h')
  | some block => exact Holds.unique h h'

theorem carries_take (h : Carries body text) (t : Bytes) : (body.getD [] ++ t).take text.length = text := by
  cases body with
  | none =>
    have htext : text = [] := h
    rw [htext, List.length_nil, List.take_zero]
  | some block =>
    obtain ⟨-, t', hblock⟩ := h
    rw [Option.getD_some, hblock, List.append_assoc, List.take_left]

theorem appendEntry_carries (h : Carries body text) (htext : (0 : UInt8) ∉ text) (huri : uri ≠ [])
    (huriNul : (0 : UInt8) ∉ uri) (hname : (0 : UInt8) ∉ name) (fresh : Nat → UInt8) :
    ∃ block, appendEntry uri name fresh body text.length = some (block, (text ++ cutLine uri name).length) ∧
      Holds block (text ++ cutLine uri name) := by
  have hline : formatLine uri name (uri.getLast huri) = lineOf uri name := by
    rw [formatLine, lineOf, List.getLast?_eq_getLast_of_ne_nil huri]
    simp only [Option.some.injEq]
  have hcut : snprintf (name.length + uri.length + 64 + 1) (lineOf uri name) = cutLine uri name := rfl
  generalize hblock : resize (body.getD []) (text.length + (name.length + uri.length + 64) + 1) fresh = block
  have htake : block.take text.length = text := by
    rw [← hblock, resize, List.take_take, Nat.min_eq_left (by omega), carries_take h]
  have hmem : memcpy block text.length (cutLine uri name ++ [0]) =
      text ++ (cutLine uri name ++ 0 :: block.drop (text.length + (cutLine uri name ++ [0]).length)) := by
    rw [memcpy, htake]
    simp
  refine ⟨text ++ (cutLine uri name ++ 0 :: block.drop (text.length + (cutLine uri name ++ [0]).length)), ?_, ?_, ?_⟩
  · rw [appendEntry, List.getLast?_eq_getLast_of_ne_nil huri, Option.map_some, hline, hcut, hblock, hmem]
    dsimp only
    rw [List.drop_left, cstr_append_zero (cutLine_noNul huriNul hname)]
    simp only [List.length_append]
  · exact text_cutLine_noNul huriNul hname htext
  · exact ⟨_, (List.append_assoc _ _ _).symm⟩

-- ---------------------------------------------------------------------------
-- All entries
-- ---------------------------------------------------------------------------

theorem listed_cons_skipped {name : CStr} (h : isSkipped name.1) (names : List CStr) :
    listed (name :: names) = listed names := by simp [listed, h]

theorem listed_cons {name : CStr} (h : ¬ isSkipped name.1) (names : List CStr) :
    listed (name :: names) = name.1 :: listed names := by simp [listed, h]

theorem readEntries_carries (huri : uri ≠ []) (huriNul : (0 : UInt8) ∉ uri) (d : Directory) (names : List CStr)
    (i : Nat) (hrealloc : ∀ j < (listed names).length, (d.realloc (i + j)).isSome)
    (h : Carries body text) (htext : (0 : UInt8) ∉ text) :
    ∃ body', readEntries d uri names i body text.length =
        some ⟨true, body', (text ++ (listed names).flatMap (cutLine uri)).length⟩ ∧
      Carries body' (text ++ (listed names).flatMap (cutLine uri)) := by
  induction names generalizing i body text with
  | nil => exact ⟨body, by simp [readEntries, listed], by simpa [listed] using h⟩
  | cons name names ih =>
    by_cases hskip : isSkipped name.1
    · rw [readEntries, if_pos hskip, listed_cons_skipped hskip]
      exact ih i (by rwa [listed_cons_skipped hskip] at hrealloc) h htext
    · rw [listed_cons hskip] at hrealloc ⊢
      obtain ⟨fresh, hfresh⟩ := Option.isSome_iff_exists.mp (hrealloc 0 (Nat.zero_lt_succ _))
      rw [Nat.add_zero] at hfresh
      obtain ⟨block, happend, hblock⟩ := appendEntry_carries h htext huri huriNul name.2 fresh
      have hrest : ∀ j < (listed names).length, (d.realloc (i + 1 + j)).isSome := by
        intro j hj
        rw [Nat.add_assoc, Nat.add_comm 1]
        exact hrealloc (j + 1) (Nat.succ_lt_succ hj)
      obtain ⟨body', hread, hbody'⟩ := ih (i + 1) hrest (show Carries (some block) _ from hblock)
        (text_cutLine_noNul huriNul name.2 htext)
      rw [List.flatMap_cons, ← List.append_assoc]
      refine ⟨body', ?_, hbody'⟩
      rw [readEntries, if_neg hskip, hfresh]
      dsimp only
      rw [happend, Option.bind_some, hread]

theorem readEntries_fails (huri : uri ≠ []) (huriNul : (0 : UInt8) ∉ uri) (d : Directory) (names : List CStr)
    (i : Nat) (hrealloc : ¬ ∀ j < (listed names).length, (d.realloc (i + j)).isSome)
    (h : Carries body text) (htext : (0 : UInt8) ∉ text) :
    readEntries d uri names i body text.length = some ⟨false, none, 0⟩ := by
  induction names generalizing i body text with
  | nil => exact absurd (fun j hj => absurd hj (Nat.not_lt_zero j)) hrealloc
  | cons name names ih =>
    by_cases hskip : isSkipped name.1
    · rw [readEntries, if_pos hskip]
      exact ih i (by rwa [listed_cons_skipped hskip] at hrealloc) h htext
    · rw [listed_cons hskip] at hrealloc
      rw [readEntries, if_neg hskip]
      cases hfresh : d.realloc i with
      | none => rfl
      | some fresh =>
        obtain ⟨block, happend, hblock⟩ := appendEntry_carries h htext huri huriNul name.2 fresh
        have hrest : ¬ ∀ j < (listed names).length, (d.realloc (i + 1 + j)).isSome := by
          intro hrest
          refine hrealloc fun j hj => ?_
          cases j with
          | zero => rw [Nat.add_zero, hfresh, Option.isSome_some]
          | succ j =>
            rw [Nat.add_comm j, ← Nat.add_assoc]
            exact hrest j (Nat.lt_of_succ_lt_succ hj)
        dsimp only
        rw [happend, Option.bind_some]
        exact ih (i + 1) hrest (show Carries (some block) _ from hblock) (text_cutLine_noNul huriNul name.2 htext)

/-- Without a byte before its terminator `uri` is read where it is not. -/
theorem readEntries_nil (d : Directory) (names : List CStr) :
    readEntries d [] names 0 none 0 =
      if listed names = [] then some ⟨true, none, 0⟩
      else if (d.realloc 0).isSome then none else some ⟨false, none, 0⟩ := by
  induction names with
  | nil => rfl
  | cons name names ih =>
    by_cases hskip : isSkipped name.1
    · rw [readEntries, if_pos hskip, listed_cons_skipped hskip, ih]
    · rw [readEntries, if_neg hskip, listed_cons hskip, if_neg (List.cons_ne_nil _ _)]
      cases d.realloc 0 with
      | none => rfl
      | some fresh => rfl

theorem length_flatMap_cutLine_le (uri : Bytes) (names : List Bytes) :
    (names.flatMap (cutLine uri)).length ≤ (names.flatMap (lineOf uri)).length := by
  induction names with
  | nil => exact Nat.le_refl _
  | cons name names ih =>
    rw [List.flatMap_cons, List.flatMap_cons, List.length_append, List.length_append]
    exact Nat.add_le_add (List.length_take_le' _ _) ih

theorem flatMap_cutLine_eq_iff (uri : Bytes) (names : List Bytes) :
    names.flatMap (cutLine uri) = names.flatMap (lineOf uri) ↔ ∀ name ∈ names, Short uri name := by
  induction names with
  | nil => exact iff_of_true rfl (List.forall_mem_nil _)
  | cons name names ih =>
    rw [List.flatMap_cons, List.flatMap_cons, List.forall_mem_cons, ← ih, ← cutLine_eq_iff]
    constructor
    · intro h
      have hlength := congrArg List.length h
      rw [List.length_append, List.length_append] at hlength
      have hline : (cutLine uri name).length ≤ (lineOf uri name).length := List.length_take_le' _ _
      have hlines := length_flatMap_cutLine_le uri names
      exact List.append_inj h (by omega)
    · rintro ⟨hline, hlines⟩
      rw [hline, hlines]

-- ---------------------------------------------------------------------------
-- Every directory
-- ---------------------------------------------------------------------------

/-- A URI needs a byte, and each line its estimate; what is freed with its text
needs nothing. -/
def Fits (d : Directory) (uri : Bytes) : Prop :=
  ∀ names, d.opendir = some names →
    if uri = [] then listed names = [] ∨ d.realloc 0 = none
    else Allocates d names → ∀ name ∈ listed names, Short uri name

theorem lists_of_eq (h : getDirectoryEntries d uri = some l) : Lists d uri ↔ l.Complete uri (d.opendir.getD []) := by
  constructor
  · rintro ⟨l', hl', hcomplete⟩
    obtain rfl := Option.some.inj (h.symm.trans hl')
    exact hcomplete
  · exact fun hcomplete => ⟨l, h, hcomplete⟩

theorem complete_failure (uri : Bytes) (names : List CStr) : Listing.Complete uri names ⟨false, none, 0⟩ :=
  ⟨rfl, rfl⟩

theorem lists_nil_iff (hopendir : d.opendir = some names) :
    Lists d [] ↔ listed names = [] ∨ d.realloc 0 = none := by
  have hread : getDirectoryEntries d [] = readEntries d [] names 0 none 0 := by rw [getDirectoryEntries, hopendir]
  rw [readEntries_nil] at hread
  by_cases hnil : listed names = []
  · rw [if_pos hnil] at hread
    rw [lists_of_eq hread, hopendir]
    refine iff_of_true ?_ (.inl hnil)
    exact ⟨by rw [Option.getD_some, hnil]; rfl, by rw [Option.getD_some, hnil]; rfl⟩
  rw [if_neg hnil] at hread
  rw [or_iff_right hnil]
  cases hrealloc : d.realloc 0 with
  | none =>
    rw [hrealloc] at hread
    exact iff_of_true ((lists_of_eq hread).mpr (complete_failure _ _)) rfl
  | some fresh =>
    rw [hrealloc] at hread
    refine iff_of_false ?_ (by simp)
    rintro ⟨l, hl, -⟩
    rw [hread] at hl
    contradiction

theorem lists_cons_iff (hopendir : d.opendir = some names) (huri : uri ≠ []) (huriNul : (0 : UInt8) ∉ uri) :
    Lists d uri ↔ (Allocates d names → ∀ name ∈ listed names, Short uri name) := by
  have hread : getDirectoryEntries d uri = readEntries d uri names 0 none 0 := by rw [getDirectoryEntries, hopendir]
  by_cases hrealloc : Allocates d names
  · obtain ⟨body, heq, hbody⟩ := readEntries_carries huri huriNul d names 0
      (by simpa [Allocates] using hrealloc) carries_none List.not_mem_nil
    rw [List.nil_append] at heq hbody
    rw [lists_of_eq (hread.trans heq), hopendir, ← flatMap_cutLine_eq_iff, forall_prop_of_true hrealloc]
    constructor
    · rintro ⟨hfull, -⟩
      exact hbody.unique hfull
    · intro hall
      exact ⟨hall ▸ hbody, congrArg List.length hall⟩
  · have hfails := readEntries_fails huri huriNul d names 0
      (by simpa [Allocates] using hrealloc) carries_none List.not_mem_nil
    exact iff_of_true ((lists_of_eq (hread.trans hfails)).mpr (complete_failure _ _)) fun h => absurd h hrealloc

theorem lists_iff (d : Directory) (uri : CStr) : Lists d uri.1 ↔ Fits d uri.1 := by
  cases hopendir : d.opendir with
  | none =>
    have hread : getDirectoryEntries d uri.1 = some ⟨false, none, 0⟩ := by rw [getDirectoryEntries, hopendir]
    refine iff_of_true ((lists_of_eq hread).mpr (complete_failure _ _)) fun names hnames => ?_
    rw [hopendir] at hnames
    contradiction
  | some names =>
    have hfits : Fits d uri.1 ↔ if uri.1 = [] then listed names = [] ∨ d.realloc 0 = none
        else Allocates d names → ∀ name ∈ listed names, Short uri.1 name := by
      simp [Fits, hopendir]
    rw [hfits]
    split
    case isTrue hnil =>
      rw [hnil]
      exact lists_nil_iff hopendir
    case isFalse huri => exact lists_cons_iff hopendir huri uri.2

def Listing.entries (l : Listing) : Option (Option Bytes) :=
  if l.isSuccess then some (l.body.map (·.take l.bodySize)) else none

theorem serveDirectory_complete {env : Http.Env} {request : Http.HttpRequest} {l : Listing} (hentries : env.entries = l.entries)
    (hsuccess : l.isSuccess) (hbody : l.body.isSome) (hcomplete : l.Complete request.uriText names)
    (filePath : Bytes) :
    ∃ headers, (Http.serveDirectory env request filePath).calls =
      .opendir filePath :: .acquire .entries :: .acquire .responseHeaders ::
        Http.sendHttpStatus 200 ((listed names).flatMap (lineOf request.uriText)) headers ++
        Http.killHttpConnection request ++ [.release .entries] := by
  obtain ⟨block, hblock⟩ := Option.isSome_iff_exists.mp hbody
  rw [Listing.Complete, if_pos hsuccess, hblock] at hcomplete
  obtain ⟨⟨-, t, htext⟩, hsize⟩ := hcomplete
  have htake : block.take l.bodySize = (listed names).flatMap (lineOf request.uriText) := by
    rw [hsize, htext, List.take_left]
  have hlist : env.entries = some (some ((listed names).flatMap (lineOf request.uriText))) := by
    rw [hentries, Listing.entries, if_pos hsuccess, hblock, Option.map_some, htake]
  rw [Http.serveDirectory, hlist]
  exact ⟨_, rfl⟩

/-- A directory with one file, whose name has 44 bytes. -/
def longNameDirectory : Directory where
  opendir := some [⟨List.replicate 44 97, by decide⟩]
  realloc _ := some fun _ => 0

/-- Below `docs`, the line of the file has one byte more than its estimate. -/
theorem longName_not_lists : ¬ Lists longNameDirectory (bytes "docs") := by
  rw [lists_cons_iff (d := longNameDirectory) rfl (by decide) (by decide)]
  intro hshort
  have hname := hshort (fun _ _ => rfl) (List.replicate 44 97) (by decide)
  revert hname
  unfold Short
  decide

end GeoNS.Io.Entries
