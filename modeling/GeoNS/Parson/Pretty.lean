import GeoNS.Parson.Dotted
import GeoNS.Parson.Locality

/-!
# The indented text

What the writer that indents wrote is read back, whatever prints the numbers,
as long as the parser reads what it prints.
-/

namespace GeoNS.Parson

open CString

-- ---------------------------------------------------------------------------
-- Well-formed values
-- ---------------------------------------------------------------------------

/-- The values parson holds: an object's names are distinct and hold no NUL.
What is known of the numbers is a parameter. -/
inductive WellFormed (P : Decimal → Prop) : Value → Prop
  | null : WellFormed P .null
  | boolean (b : Bool) : WellFormed P (.boolean b)
  | number (hd : P d) : WellFormed P (.number d)
  | string (s : Bytes) : WellFormed P (.string s)
  | array (hitems : ∀ v ∈ items, WellFormed P v) : WellFormed P (.array items)
  | object (hnames : ∀ m ∈ members, (0 : UInt8) ∉ m.1) (hdistinct : (members.map (·.1)).Nodup)
    (hmembers : ∀ m ∈ members, WellFormed P m.2) : WellFormed P (.object members)

mutual
/-- How many arrays and objects stand around the innermost value. -/
def depth : Value → Nat
  | .array items => depthItems items
  | .object members => depthMembers members
  | _ => 0
def depthItems : List Value → Nat
  | [] => 0
  | v :: rest => max (depth v + 1) (depthItems rest)
def depthMembers : Object → Nat
  | [] => 0
  | (_, v) :: rest => max (depth v + 1) (depthMembers rest)
end

theorem depth_lt_depthItems (h : v ∈ items) : depth v < depthItems items := by
  induction items with
  | nil => simp at h
  | cons w rest ih =>
    rw [depthItems]
    rcases List.mem_cons.mp h with rfl | h
    · exact Nat.le_max_left ..
    · exact (ih h).trans_le (Nat.le_max_right ..)

theorem depth_lt_depthMembers {members : Object} (h : m ∈ members) :
    depth m.2 < depthMembers members := by
  induction members with
  | nil => simp at h
  | cons w rest ih =>
    obtain ⟨name, v⟩ := w
    rw [depthMembers]
    rcases List.mem_cons.mp h with rfl | h
    · exact Nat.le_max_left ..
    · exact (ih h).trans_le (Nat.le_max_right ..)

-- ---------------------------------------------------------------------------
-- Numbers
-- ---------------------------------------------------------------------------

/-- The number that the parser reads of what is printed for `d`. -/
def readBack (format : Decimal → Bytes) (d : Decimal) : Decimal :=
  match parseNumberValue (format d) with
  | some (.number d', []) => d'
  | _ => d

/-- `format` prints a C string that the parser reads as a number. It may be another
decimal, as the code has doubles in between. -/
structure Prints (format : Decimal → Bytes) (d : Decimal) : Prop where
  text : (0 : UInt8) ∉ format d
  start : ∃ c r, format d = c :: r ∧ isNumberStart c
  read : parseNumberValue (format d) = some (.number (readBack format d), [])

theorem readBack_eq {format : Decimal → Bytes} (h : parseNumberValue (format d) = some (.number d', [])) :
    readBack format d = d' := by
  rw [readBack, h]

mutual
def Value.mapNumbers (f : Decimal → Decimal) : Value → Value
  | .number d => .number (f d)
  | .array items => .array (mapItems f items)
  | .object members => .object (mapMembers f members)
  | v => v
def mapItems (f : Decimal → Decimal) : List Value → List Value
  | [] => []
  | v :: rest => v.mapNumbers f :: mapItems f rest
def mapMembers (f : Decimal → Decimal) : Object → Object
  | [] => []
  | (name, v) :: rest => (name, v.mapNumbers f) :: mapMembers f rest
end

theorem parseNumberValue_ofNat (hk : (Decimal.ofNat k).finite) :
    parseNumberValue (serializeNumber (.ofNat k)) = some (.number (.ofNat k), []) := by
  have hread := parseNumberValue_dec (c := 44) hk rfl []
  rw [parseNumberValue_append_stop (show isStop 44 from rfl)] at hread
  obtain ⟨⟨v, left⟩, hnumber, heq⟩ := Option.map_eq_some_iff.mp hread
  obtain ⟨rfl, hleft⟩ := Prod.mk.inj heq
  obtain rfl : left = [] := by simpa using hleft
  rwa [serializeNumber_ofNat]

theorem readBack_ofNat (hk : (Decimal.ofNat k).finite) : readBack serializeNumber (.ofNat k) = .ofNat k :=
  readBack_eq (parseNumberValue_ofNat hk)

theorem prints_ofNat (hk : (Decimal.ofNat k).finite) : Prints serializeNumber (.ofNat k) := by
  obtain ⟨d, ds, hd⟩ := List.exists_cons_of_ne_nil (dec_ne_nil k)
  have hdig : isdigit d := isdigit_of_mem_dec (n := k) (hd ▸ List.mem_cons_self ..)
  rw [← serializeNumber_ofNat] at hd
  refine ⟨zero_notMem_serializeNumber _, ⟨d, ds, hd, by simp [isNumberStart, hdig]⟩, ?_⟩
  rw [readBack_ofNat hk, parseNumberValue_ofNat hk]

-- ---------------------------------------------------------------------------
-- White space
-- ---------------------------------------------------------------------------

theorem skipWhitespaces_indent (level : Nat) (s : Bytes) :
    skipWhitespaces (indent level ++ s) = skipWhitespaces s := by
  rw [skipWhitespaces, indent, List.dropWhile_append_of_pos]
  · rfl
  · intro c hc
    rw [(List.mem_replicate.mp hc).2]
    rfl

theorem skipWhitespaces_newline (s : Bytes) : skipWhitespaces (10 :: s) = skipWhitespaces s := rfl

theorem parseValue_space (s : Bytes) : parseValue fuel n (32 :: s) = parseValue fuel n s := by
  cases fuel with
  | zero => rfl
  | succ fuel => simp only [parseValue, show skipWhitespaces (32 :: s) = skipWhitespaces s from rfl]

theorem parseNext_last (hc : close = 93 ∨ close = 125) (level : Nat) (t : Bytes) :
    parseNext close (10 :: (indent level ++ close :: t)) = some (.stop t) := by
  have hspace : isspace close = false := by rcases hc with rfl | rfl <;> rfl
  have hcomma : close ≠ 44 := by rcases hc with rfl | rfl <;> decide
  simp [parseNext, skipWhitespaces_newline, skipWhitespaces_indent, skipWhitespaces_cons hspace, hcomma]

theorem parseNext_comma_newline (hs : skipWhitespaces s = d :: r) (hd : d ≠ close) :
    parseNext close (44 :: 10 :: s) = some (.more (d :: r)) := by
  simp [parseNext, skipWhitespaces_cons (show isspace 44 = false from rfl), skipWhitespaces_newline, hs, hd]

theorem parseOpened_newline (hs : skipWhitespaces s = d :: r) (hd : d ≠ close) :
    parseOpened close empty parseMore (10 :: s) = parseMore (d :: r) := by
  simp [parseOpened, skipWhitespaces_newline, hs, hd]

-- ---------------------------------------------------------------------------
-- Items and members
-- ---------------------------------------------------------------------------

section Writer

variable {format : Decimal → Bytes}

def separator (rest : List α) : Bytes := if rest.isEmpty then [10] else [44, 10]

theorem prettyItems_cons (level : Nat) (v : Value) (rest : List Value) :
    prettyItems format level (v :: rest) =
      indent level ++ (serializePretty format level v ++ (separator rest ++ prettyItems format level rest)) := by
  rw [prettyItems]
  cases rest <;> simp [separator, bytes]

theorem prettyMembers_cons (level : Nat) (m : Bytes × Value) (rest : Object) :
    prettyMembers format level (m :: rest) =
      indent level ++ (serializeString m.1 ++ (58 :: 32 :: (serializePretty format level m.2 ++
        (separator rest ++ prettyMembers format level rest)))) := by
  rw [prettyMembers]
  cases rest <;> simp [separator, bytes]

theorem length_separator_pos (rest : List α) : 0 < (separator rest).length := by
  cases rest <;> simp [separator]

theorem stops_separator (v : Value) (rest : List α) (t : Bytes) : Stops v (separator rest ++ t) := by
  intro d _
  cases rest with
  | nil => exact ⟨10, t, rfl, rfl⟩
  | cons => exact ⟨44, 10 :: t, rfl, rfl⟩

theorem serializePretty_head (h : WellFormed (Prints format) v) (level : Nat) (t : Bytes) :
    ∃ c r, serializePretty format level v ++ t = c :: r ∧ isspace c = false ∧ c ≠ 93 := by
  cases h with
  | null => exact ⟨110, bytes "ull" ++ t, by rw [serializePretty]; rfl, by decide, by decide⟩
  | boolean b =>
    cases b
    · exact ⟨102, bytes "alse" ++ t, by rw [serializePretty]; rfl, by decide, by decide⟩
    · exact ⟨116, bytes "rue" ++ t, by rw [serializePretty]; rfl, by decide, by decide⟩
  | number hd =>
    obtain ⟨c, r, hc, hstart⟩ := hd.start
    have hspace : isspace c = false ∧ c ≠ 93 := by
      have hall : ∀ c : UInt8, isNumberStart c → isspace c = false ∧ c ≠ 93 := by decide +kernel
      exact hall c hstart
    exact ⟨c, r ++ t, by rw [serializePretty, hc]; rfl, hspace⟩
  | string s => exact ⟨34, _, by rw [serializePretty, serializeString]; rfl, by decide, by decide⟩
  | @array items _ =>
    cases items with
    | nil => exact ⟨91, 93 :: t, by rw [serializePretty]; rfl, by decide, by decide⟩
    | cons => exact ⟨91, _, by rw [serializePretty]; rfl, by decide, by decide⟩
  | @object members _ _ _ =>
    cases members with
    | nil => exact ⟨123, 125 :: t, by rw [serializePretty]; rfl, by decide, by decide⟩
    | cons => exact ⟨123, _, by rw [serializePretty]; rfl, by decide, by decide⟩

def ReadsPretty (format : Decimal → Bytes) (n level : Nat) (v : Value) : Prop :=
  ∀ fuel t, 2 * (serializePretty format level v).length < fuel → Stops v t →
    parseValue fuel n (serializePretty format level v ++ t) = some (v.mapNumbers (readBack format), t)

theorem skipWhitespaces_prettyItems (hw : WellFormed (Prints format) v) (level : Nat) (rest : List Value)
    (t : Bytes) :
    ∃ d r, skipWhitespaces (prettyItems format level (v :: rest) ++ t) = d :: r ∧ d ≠ 93 ∧
      d :: r = serializePretty format level v ++ (separator rest ++ (prettyItems format level rest ++ t)) := by
  obtain ⟨d, r, hd, hspace, hclose⟩ :=
    serializePretty_head hw level (separator rest ++ (prettyItems format level rest ++ t))
  refine ⟨d, r, ?_, hclose, hd.symm⟩
  rw [prettyItems_cons]
  simp only [List.append_assoc]
  rw [skipWhitespaces_indent, hd, skipWhitespaces_cons hspace]

theorem skipWhitespaces_prettyMembers (level : Nat) (m : Bytes × Value) (rest : Object) (t : Bytes) :
    ∃ r, skipWhitespaces (prettyMembers format level (m :: rest) ++ t) = 34 :: r ∧
      34 :: r = serializeString m.1 ++ (58 :: 32 :: (serializePretty format level m.2 ++
        (separator rest ++ (prettyMembers format level rest ++ t)))) := by
  rw [prettyMembers_cons]
  simp only [List.append_assoc, List.cons_append, skipWhitespaces_indent, serializeString,
    skipWhitespaces_cons (show isspace 34 = false from rfl)]
  exact ⟨_, rfl, rfl⟩

theorem parseItems_pretty (hread : ∀ v ∈ items, ReadsPretty format n level v)
    (hw : ∀ v ∈ items, WellFormed (Prints format) v)
    (hfuel : 2 * (prettyItems format level items).length + 1 < fuel)
    (hs : skipWhitespaces (prettyItems format level items ++ (indent outer ++ 93 :: t)) = d :: r)
    (hd : d ≠ 93) (acc : List Value) :
    parseItems fuel n acc (d :: r) = some (.array (acc ++ mapItems (readBack format) items), t) := by
  induction items generalizing fuel acc d r with
  | nil =>
    rw [prettyItems, List.nil_append, skipWhitespaces_indent,
      skipWhitespaces_cons (show isspace 93 = false from rfl)] at hs
    exact absurd (List.cons.inj hs).1.symm hd
  | cons v rest ih =>
    obtain ⟨fuel, rfl⟩ := Nat.exists_eq_succ_of_ne_zero (Nat.ne_zero_of_lt hfuel)
    obtain ⟨hv, hrest⟩ := List.forall_mem_cons.mp hread
    obtain ⟨hwv, hwrest⟩ := List.forall_mem_cons.mp hw
    obtain ⟨d', r', hs', -, htext⟩ := skipWhitespaces_prettyItems hwv level rest (indent outer ++ 93 :: t)
    rw [hs] at hs'
    rw [hs', htext]
    rw [prettyItems_cons] at hfuel
    simp only [List.length_append] at hfuel
    have hsep := length_separator_pos rest
    have hvalue := hv fuel (separator rest ++ (prettyItems format level rest ++ (indent outer ++ 93 :: t)))
      (by omega) (stops_separator v rest _)
    cases rest with
    | nil =>
      have hnext : parseNext 93 (separator ([] : List Value) ++ (prettyItems format level [] ++
          (indent outer ++ 93 :: t))) = some (.stop t) := by
        rw [prettyItems]
        exact parseNext_last (.inl rfl) outer t
      simp only [parseItems, hvalue, hnext, mapItems]
    | cons w rest =>
      obtain ⟨e, u, hnextText, he, -⟩ :=
        skipWhitespaces_prettyItems (hwrest w (List.mem_cons_self ..)) level rest (indent outer ++ 93 :: t)
      have hnext : parseNext 93 (separator (w :: rest) ++ (prettyItems format level (w :: rest) ++
          (indent outer ++ 93 :: t))) = some (.more (e :: u)) :=
        parseNext_comma_newline hnextText he
      have hrec : parseItems fuel n (acc ++ [v.mapNumbers (readBack format)]) (e :: u) =
          some (.array (acc ++ [v.mapNumbers (readBack format)] ++ mapItems (readBack format) (w :: rest)), t) :=
        ih hrest hwrest (by omega) hnextText he (acc ++ [v.mapNumbers (readBack format)])
      simp only [parseItems, hvalue, hnext, hrec, mapItems]
      simp

theorem parseMembers_pretty (hread : ∀ m ∈ members, ReadsPretty format n level m.2)
    (hnames : ∀ m ∈ members, (0 : UInt8) ∉ m.1)
    (hdistinct : ((acc ++ members).map (·.1)).Nodup)
    (hfuel : 2 * (prettyMembers format level members).length < fuel)
    (hs : skipWhitespaces (prettyMembers format level members ++ (indent outer ++ 125 :: t)) = 34 :: r) :
    parseMembers fuel n acc (34 :: r) = some (.object (acc ++ mapMembers (readBack format) members), t) := by
  induction members generalizing fuel acc r with
  | nil =>
    rw [prettyMembers, List.nil_append, skipWhitespaces_indent,
      skipWhitespaces_cons (show isspace 125 = false from rfl)] at hs
    exact absurd (List.cons.inj hs).1 (by decide)
  | cons m rest ih =>
    obtain ⟨fuel, rfl⟩ := Nat.exists_eq_succ_of_ne_zero (Nat.ne_zero_of_lt hfuel)
    obtain ⟨hm, hrest⟩ := List.forall_mem_cons.mp hread
    obtain ⟨hname, hnames⟩ := List.forall_mem_cons.mp hnames
    have hnew : acc.any (·.1 == m.1) = false := by
      rw [List.map_append, List.nodup_append] at hdistinct
      rw [List.any_eq_false]
      intro a ha heq
      exact hdistinct.2.2 a.1 (List.mem_map_of_mem ha) m.1 (by simp) (beq_iff_eq.mp heq)
    obtain ⟨r', hs', htext⟩ := skipWhitespaces_prettyMembers level m rest (indent outer ++ 125 :: t)
    rw [hs] at hs'
    rw [hs', htext]
    rw [prettyMembers_cons] at hfuel
    simp only [List.length_append, List.length_cons] at hfuel
    have hvalue : parseValue fuel n (32 :: (serializePretty format level m.2 ++ (separator rest ++
        (prettyMembers format level rest ++ (indent outer ++ 125 :: t))))) =
          some (m.2.mapNumbers (readBack format), separator rest ++ (prettyMembers format level rest ++ (indent outer ++ 125 :: t))) :=
      (parseValue_space _).trans (hm fuel _ (by omega) (stops_separator m.2 rest _))
    cases rest with
    | nil =>
      have hnext : parseNext 125 (separator ([] : Object) ++ (prettyMembers format level [] ++
          (indent outer ++ 125 :: t))) = some (.stop t) := by
        rw [prettyMembers]
        exact parseNext_last (.inr rfl) outer t
      simp only [parseMembers, parseName_serialize hname, hvalue, hnew, hnext, mapMembers]
      rfl
    | cons m' rest =>
      obtain ⟨u, hnextText, -⟩ := skipWhitespaces_prettyMembers level m' rest (indent outer ++ 125 :: t)
      have hnext : parseNext 125 (separator (m' :: rest) ++ (prettyMembers format level (m' :: rest) ++
          (indent outer ++ 125 :: t))) = some (.more (34 :: u)) :=
        parseNext_comma_newline hnextText (by decide)
      have hrec : parseMembers fuel n (acc ++ [(m.1, m.2.mapNumbers (readBack format))]) (34 :: u) =
          some (.object (acc ++ [(m.1, m.2.mapNumbers (readBack format))] ++
            mapMembers (readBack format) (m' :: rest)), t) :=
        ih hrest hnames (by simpa using hdistinct) (by omega) hnextText
      simp only [parseMembers, parseName_serialize hname, hvalue, hnew, hnext, hrec, mapMembers]
      simp

-- ---------------------------------------------------------------------------
-- Round trip
-- ---------------------------------------------------------------------------

theorem readsPretty_array (hdepth : n + depthItems items ≤ maxNesting)
    (hread : ∀ v ∈ items, ReadsPretty format (n + 1) (level + 1) v)
    (hw : ∀ v ∈ items, WellFormed (Prints format) v) : ReadsPretty format n level (.array items) := by
  intro fuel t hfuel _
  obtain ⟨fuel, rfl⟩ := Nat.exists_eq_succ_of_ne_zero (Nat.ne_zero_of_lt hfuel)
  have hn : n ≤ maxNesting := Nat.le_of_add_right_le hdepth
  cases items with
  | nil =>
    rw [serializePretty]
    exact (parseValue_array hn (skipWhitespaces_cons rfl _)).trans (parseOpened_close rfl t)
  | cons v rest =>
    obtain ⟨d, r, hs, hd, -⟩ :=
      skipWhitespaces_prettyItems (hw v (List.mem_cons_self ..)) (level + 1) rest (indent level ++ 93 :: t)
    have htext : serializePretty format level (.array (v :: rest)) ++ t =
        91 :: 10 :: (prettyItems format (level + 1) (v :: rest) ++ (indent level ++ 93 :: t)) := by
      rw [serializePretty]
      simp [bytes]
    have hlen := congrArg List.length htext
    simp only [List.length_append, List.length_cons] at hlen
    rw [htext, parseValue_array hn (skipWhitespaces_cons rfl _), parseOpened_newline hs hd]
    exact parseItems_pretty hread hw (by omega) hs hd []

theorem readsPretty_object {members : Object} (hdepth : n + depthMembers members ≤ maxNesting)
    (hread : ∀ m ∈ members, ReadsPretty format (n + 1) (level + 1) m.2)
    (hnames : ∀ m ∈ members, (0 : UInt8) ∉ m.1) (hdistinct : (members.map (·.1)).Nodup) :
    ReadsPretty format n level (.object members) := by
  intro fuel t hfuel _
  obtain ⟨fuel, rfl⟩ := Nat.exists_eq_succ_of_ne_zero (Nat.ne_zero_of_lt hfuel)
  have hn : n ≤ maxNesting := Nat.le_of_add_right_le hdepth
  cases members with
  | nil =>
    rw [serializePretty]
    exact (parseValue_object hn (skipWhitespaces_cons rfl _)).trans (parseOpened_close rfl t)
  | cons m rest =>
    obtain ⟨r, hs, -⟩ := skipWhitespaces_prettyMembers (level + 1) m rest (indent level ++ 125 :: t)
    have htext : serializePretty format level (.object (m :: rest)) ++ t =
        123 :: 10 :: (prettyMembers format (level + 1) (m :: rest) ++ (indent level ++ 125 :: t)) := by
      rw [serializePretty]
      simp
    have hlen := congrArg List.length htext
    simp only [List.length_append, List.length_cons] at hlen
    rw [htext, parseValue_object hn (skipWhitespaces_cons rfl _), parseOpened_newline hs (by decide)]
    exact parseMembers_pretty hread hnames (by simpa using hdistinct) (by omega) hs

theorem parseValue_number (hn : n ≤ maxNesting) (hd : Prints format d)
    (ht : t = [] ∨ ∃ c r, t = c :: r ∧ isStop c) (fuel : Nat) :
    parseValue (fuel + 1) n (format d ++ t) = some (.number (readBack format d), t) := by
  obtain ⟨e, u, he, hstart⟩ := hd.start
  have hall : ∀ e : UInt8, isNumberStart e → isspace e = false ∧ e ≠ 123 ∧ e ≠ 91 ∧ e ≠ 34 ∧
      (e = 102 || e = 116) = false := by decide +kernel
  obtain ⟨hspace, hobject, harray, hquote, hbool⟩ := hall e hstart
  have hnumber : parseNumberValue (format d ++ t) = some (.number (readBack format d), t) := by
    rcases ht with rfl | ⟨c, r, rfl, hc⟩
    · rw [List.append_nil, hd.read]
    · rw [parseNumberValue_append_stop hc, hd.read]
      rfl
  rw [he, List.cons_append] at hnumber ⊢
  rw [parseValue_scalar hn (skipWhitespaces_cons hspace _) hobject harray, parseScalar, if_neg hquote,
    hbool, if_neg Bool.false_ne_true, if_pos hstart, hnumber]

theorem readsPretty_number (hn : n ≤ maxNesting) (hd : Prints format d) :
    ReadsPretty format n level (.number d) := by
  intro fuel t hfuel hstops
  obtain ⟨fuel, rfl⟩ := Nat.exists_eq_succ_of_ne_zero (Nat.ne_zero_of_lt hfuel)
  rw [serializePretty, Value.mapNumbers]
  exact parseValue_number hn hd (.inr (hstops d rfl)) fuel

theorem parseValue_serializePretty (h : WellFormed (Prints format) v) (hdepth : n + depth v ≤ maxNesting)
    (level : Nat) : ReadsPretty format n level v := by
  have hn : n ≤ maxNesting := Nat.le_of_add_right_le hdepth
  induction h generalizing n level with
  | null =>
    intro fuel t hfuel _
    obtain ⟨fuel, rfl⟩ := Nat.exists_eq_succ_of_ne_zero (Nat.ne_zero_of_lt hfuel)
    rw [serializePretty]
    exact parseValue_scalar hn (skipWhitespaces_cons (c := 110) rfl _) (by decide) (by decide)
  | boolean b =>
    intro fuel t hfuel _
    obtain ⟨fuel, rfl⟩ := Nat.exists_eq_succ_of_ne_zero (Nat.ne_zero_of_lt hfuel)
    rw [serializePretty]
    cases b
    · exact parseValue_scalar hn (skipWhitespaces_cons (c := 102) rfl _) (by decide) (by decide)
    · exact parseValue_scalar hn (skipWhitespaces_cons (c := 116) rfl _) (by decide) (by decide)
  | number hd => exact readsPretty_number hn hd
  | string s =>
    intro fuel t hfuel _
    obtain ⟨fuel, rfl⟩ := Nat.exists_eq_succ_of_ne_zero (Nat.ne_zero_of_lt hfuel)
    have hquoted : getQuotedString (34 :: (s.flatMap escape ++ [34] ++ t)) = some (s, t) :=
      getQuotedString_serializeString s t
    rw [serializePretty, serializeString, List.cons_append,
      parseValue_scalar hn (skipWhitespaces_cons (c := 34) rfl _) (by decide) (by decide)]
    simp only [parseScalar, parseStringValue, hquoted, if_true, Option.map_some, Value.mapNumbers]
  | @array items hitems ih =>
    rw [depth] at hdepth
    refine readsPretty_array hdepth (fun v hv => ?_) hitems
    have := depth_lt_depthItems hv
    exact ih v hv (by omega) (level + 1) (by omega)
  | @object members hnames hdistinct hmembers ih =>
    rw [depth] at hdepth
    refine readsPretty_object hdepth (fun m hm => ?_) hnames hdistinct
    have := depth_lt_depthMembers hm
    exact ih m hm (by omega) (level + 1) (by omega)

-- ---------------------------------------------------------------------------
-- Whole texts
-- ---------------------------------------------------------------------------

theorem zero_notMem_indent (level : Nat) : (0 : UInt8) ∉ indent level := by simp [indent]

theorem zero_notMem_separator (rest : List α) : (0 : UInt8) ∉ separator rest := by
  cases rest <;> simp [separator]

theorem zero_notMem_prettyItems (h : ∀ v ∈ items, (0 : UInt8) ∉ serializePretty format level v) :
    (0 : UInt8) ∉ prettyItems format level items := by
  induction items with
  | nil => simp [prettyItems]
  | cons v rest ih =>
    obtain ⟨hv, hrest⟩ := List.forall_mem_cons.mp h
    rw [prettyItems_cons]
    simp only [List.mem_append, not_or]
    exact ⟨zero_notMem_indent level, hv, zero_notMem_separator rest, ih hrest⟩

theorem zero_notMem_prettyMembers {members : Object}
    (h : ∀ m ∈ members, (0 : UInt8) ∉ serializePretty format level m.2) :
    (0 : UInt8) ∉ prettyMembers format level members := by
  induction members with
  | nil => simp [prettyMembers]
  | cons m rest ih =>
    obtain ⟨hm, hrest⟩ := List.forall_mem_cons.mp h
    rw [prettyMembers_cons]
    simp only [List.mem_append, List.mem_cons, not_or]
    exact ⟨zero_notMem_indent level, zero_notMem_serializeString m.1, by decide, by decide, hm,
      zero_notMem_separator rest, ih hrest⟩

theorem zero_notMem_serializePretty (h : WellFormed (Prints format) v) (level : Nat) :
    (0 : UInt8) ∉ serializePretty format level v := by
  induction h generalizing level with
  | null =>
    rw [serializePretty]
    decide
  | boolean b => cases b <;> rw [serializePretty] <;> decide
  | number hd =>
    rw [serializePretty]
    exact hd.text
  | string s =>
    rw [serializePretty]
    exact zero_notMem_serializeString s
  | @array items _ ih =>
    cases items with
    | nil =>
      rw [serializePretty]
      decide
    | cons v rest =>
      have hitems := zero_notMem_prettyItems fun v hv => ih v hv (level + 1)
      rw [serializePretty]
      simp only [List.mem_append, not_or]
      exact ⟨⟨⟨by decide, hitems⟩, zero_notMem_indent level⟩, by decide⟩
  | @object members _ _ _ ih =>
    cases members with
    | nil =>
      rw [serializePretty]
      decide
    | cons m rest =>
      have hmembers := zero_notMem_prettyMembers fun m hm => ih m hm (level + 1)
      rw [serializePretty]
      simp only [List.mem_append, List.mem_cons, not_or]
      exact ⟨by decide, by decide, ⟨hmembers, zero_notMem_indent level⟩, by decide⟩

theorem two_mul_depthItems_le (hne : items ≠ [])
    (h : ∀ v ∈ items, 2 * depth v ≤ (serializePretty format level v).length) :
    2 * depthItems items ≤ (prettyItems format level items).length + 2 := by
  induction items with
  | nil => contradiction
  | cons v rest ih =>
    obtain ⟨hv, hrest⟩ := List.forall_mem_cons.mp h
    rw [prettyItems_cons, depthItems]
    simp only [List.length_append]
    by_cases hnil : rest = []
    · subst hnil
      rw [depthItems]
      omega
    · have := ih hnil hrest
      omega

theorem two_mul_depthMembers_le {members : Object} (hne : members ≠ [])
    (h : ∀ m ∈ members, 2 * depth m.2 ≤ (serializePretty format level m.2).length) :
    2 * depthMembers members ≤ (prettyMembers format level members).length + 2 := by
  induction members with
  | nil => contradiction
  | cons m rest ih =>
    obtain ⟨name, v⟩ := m
    obtain ⟨hm, hrest⟩ := List.forall_mem_cons.mp h
    rw [prettyMembers_cons, depthMembers]
    dsimp only at hm
    simp only [List.length_append, List.length_cons]
    by_cases hnil : rest = []
    · subst hnil
      rw [depthMembers]
      omega
    · have := ih hnil hrest
      omega

theorem two_mul_depth_le (h : WellFormed P v) (level : Nat) :
    2 * depth v ≤ (serializePretty format level v).length := by
  induction h generalizing level with
  | @array items _ ih =>
    cases items with
    | nil => simp [depth, depthItems]
    | cons v rest =>
      have hitems := two_mul_depthItems_le (List.cons_ne_nil v rest) fun v hv => ih v hv (level + 1)
      rw [depth, serializePretty]
      simp only [List.length_append, show (bytes "[\n").length = 2 from rfl]
      omega
  | @object members _ _ _ ih =>
    cases members with
    | nil => simp [depth, depthMembers]
    | cons m rest =>
      have hmembers := two_mul_depthMembers_le (List.cons_ne_nil m rest) fun m hm => ih m hm (level + 1)
      rw [depth, serializePretty]
      simp only [List.length_append, List.length_cons]
      omega
  | _ => simp [depth]

/-- Behind a lone number the text ends, or has a byte that stops the number. -/
def Ends (v : Value) (t : Bytes) : Prop := ∀ d, v = .number d → t = [] ∨ ∃ c r, t = c :: r ∧ isStop c

theorem parseText_pretty (h : WellFormed (Prints format) v) (hdepth : depth v ≤ maxNesting)
    (t : Bytes) (hends : Ends v t) :
    parseText (jsonSerializeToStringPretty format v ++ t) = some (v.mapNumbers (readBack format), t) := by
  by_cases hnumber : ∃ d, v = .number d
  · obtain ⟨d, rfl⟩ := hnumber
    cases h with
    | number hd =>
      rw [jsonSerializeToStringPretty, serializePretty, Value.mapNumbers]
      exact parseValue_number (Nat.zero_le _) hd (hends d rfl) _
  · refine parseValue_serializePretty h (n := 0) (by omega) 0
      (2 * (jsonSerializeToStringPretty format v ++ t).length + 1) t ?_ fun d hd => absurd ⟨d, hd⟩ hnumber
    rw [List.length_append, jsonSerializeToStringPretty]
    omega

/-- A value is read back from its own text, alone or before any other, up to what is
printed for its numbers. -/
theorem jsonParse_pretty (h : WellFormed (Prints format) v) (hdepth : depth v ≤ maxNesting)
    (t : Bytes) (hends : Ends v t) :
    jsonParse (jsonSerializeToStringPretty format v ++ t) = some (v.mapNumbers (readBack format), t) := by
  have hread := parseText_pretty h hdepth t hends
  have hmark : [0xEF, 0xBB, 0xBF].isPrefixOf (jsonSerializeToStringPretty format v ++ t) = false := by
    by_contra hmark
    rw [Bool.not_eq_false, List.isPrefixOf_iff_prefix] at hmark
    obtain ⟨rest, hrest⟩ := hmark
    rw [← hrest] at hread
    exact absurd (hread.symm.trans (parseText_byteOrderMark _)) (by simp)
  rw [jsonParse, hmark, if_neg Bool.false_ne_true]
  exact hread

end Writer

end GeoNS.Parson
