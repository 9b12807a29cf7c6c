import GeoNS.HttpMessage
import GeoNS.Tokens
import GeoNS.Http.Parser

/-!
# Looking up a header

The lookup goes through the lines of the request's headers up to the first one
that is no header. It is compared with the header lines themselves, and the
lookup in headers that are cut to their limit with the one in all of them.
-/

namespace GeoNS.Http.Headers

open CString HttpMessage

/-- A value without the CR of its line. -/
def withoutCr (value : Bytes) : Bytes := if value.getLast? = some 13 then value.dropLast else value

-- ---------------------------------------------------------------------------
-- One line
-- ---------------------------------------------------------------------------

/-- The names of the line and of the lookup agree as far as they are compared. -/
def agrees (headerName name : Bytes) : Bool := headerName.take 8 == name.take 8

def passes (headerName line : Bytes) : Bool :=
  match matchHeader line with
  | none => false
  | some (name, _) => !agrees headerName name

theorem matchHeader_append (hname : name ≠ []) (hcolon : (58 : UInt8) ∉ name) (rest : Bytes) :
    matchHeader (name ++ 58 :: rest) = some (name, rest.dropWhile isspace) := by
  have htake : (name ++ 58 :: rest).takeWhile (· ≠ 58) = name := by
    rw [List.takeWhile_append_of_pos fun c hc => by simpa using fun h : c = 58 => hcolon (h ▸ hc)]
    simp
  rw [matchHeader, htake, List.drop_left]
  simp [hname]

theorem exists_of_matchHeader (h : matchHeader line = some (name, value)) :
    ∃ rest, line = name ++ 58 :: rest ∧ name ≠ [] ∧ (58 : UInt8) ∉ name := by
  rcases exists_word 58 line with hcolon | ⟨word, rest, hword, rfl⟩
  · have htake : line.takeWhile (· ≠ 58) = line :=
      List.takeWhile_eq_self_iff.mpr fun c hc => by simpa using fun h : c = 58 => hcolon (h ▸ hc)
    rw [matchHeader, htake, List.drop_length] at h
    contradiction
  · by_cases hne : word = []
    · simp [matchHeader, hne] at h
    · rw [matchHeader_append hne hword] at h
      obtain ⟨rfl, -⟩ := Prod.mk.inj (Option.some.inj h)
      exact ⟨rest, rfl, hne, hword⟩

theorem search_cons (h : matchHeader line = some (name, value)) (headerName : Bytes)
    (lines : List Bytes) : getHttpHeaderValue.search headerName (line :: lines) =
      if agrees headerName name then some value else getHttpHeaderValue.search headerName lines := by
  rw [getHttpHeaderValue.search, h]
  rfl

theorem search_cons_of_none (h : matchHeader line = none) (headerName : Bytes) (lines : List Bytes) :
    getHttpHeaderValue.search headerName (line :: lines) = none := by
  rw [getHttpHeaderValue.search, h]

theorem search_append (h : ∀ line ∈ lines, passes headerName line) (rest : List Bytes) :
    getHttpHeaderValue.search headerName (lines ++ rest) =
      getHttpHeaderValue.search headerName rest := by
  induction lines with
  | nil => rfl
  | cons line lines ih =>
    obtain ⟨hline, hlines⟩ := List.forall_mem_cons.mp h
    rw [List.cons_append, ← ih hlines]
    cases hmatch : matchHeader line with
    | none => simp [passes, hmatch] at hline
    | some field =>
      have hagrees : ¬ agrees headerName field.1 := by simpa [passes, hmatch] using hline
      rw [search_cons hmatch, if_neg hagrees]

theorem search_append_of_not (h : line ∈ lines) (hline : passes headerName line = false)
    (rest : List Bytes) : getHttpHeaderValue.search headerName (lines ++ rest) =
      getHttpHeaderValue.search headerName lines := by
  induction lines with
  | nil => cases h
  | cons first lines ih =>
    rw [List.cons_append]
    cases hfirst : matchHeader first with
    | none => rw [search_cons_of_none hfirst, search_cons_of_none hfirst]
    | some field =>
      rw [search_cons hfirst, search_cons hfirst]
      split
      · rfl
      · rename_i hagrees
        rcases List.mem_cons.mp h with rfl | h
        · simp [passes, hfirst, hagrees] at hline
        · exact ih h

theorem search_append_of_some (h : getHttpHeaderValue.search headerName lines = some value)
    (rest : List Bytes) : getHttpHeaderValue.search headerName (lines ++ rest) = some value := by
  by_cases hall : ∀ line ∈ lines, passes headerName line
  · have hnone := search_append hall []
    rw [List.append_nil, h] at hnone
    contradiction
  · push Not at hall
    obtain ⟨line, hmem, hline⟩ := hall
    rw [search_append_of_not hmem (Bool.not_eq_true _ ▸ hline), h]

theorem search_singleton_iff (line : Bytes) :
    getHttpHeaderValue.search headerName [line] = some value ↔
      ∃ name, matchHeader line = some (name, value) ∧ agrees headerName name := by
  cases hmatch : matchHeader line with
  | none => simp [search_cons_of_none hmatch]
  | some field => 
    obtain ⟨name, found⟩ := field
    rw [search_cons hmatch]
    cases h : agrees headerName name <;> simp [getHttpHeaderValue.search, h]

-- ---------------------------------------------------------------------------
-- Header lines
-- ---------------------------------------------------------------------------

structure HeaderLine where
  name : Bytes
  value : Bytes
  name_ne_nil : name ≠ []
  colon_notMem : (58 : UInt8) ∉ name
  lf_notMem_name : (10 : UInt8) ∉ name
  lf_notMem : (10 : UInt8) ∉ value
  cr_notMem : (13 : UInt8) ∉ value

def headerText (lines : List HeaderLine) : Bytes :=
  fields (lines.map fun line => (line.name, line.value)) ++ crlf

/-- The value without the white space before it. -/
def HeaderLine.stripped (line : HeaderLine) : Bytes := line.value.dropWhile isspace

/-- The value of the first line that has the name. -/
def expected (lines : List HeaderLine) (headerName : Bytes) : Option Bytes :=
  (lines.find? (·.name == headerName)).map HeaderLine.stripped

/-- The first line that agrees with the name has the value of the first line that
has the name. -/
def Unconfused (lines : List HeaderLine) (headerName : Bytes) : Prop :=
  ∀ line ∈ lines.find? (agrees headerName ·.name),
    ∃ named ∈ lines.find? (·.name == headerName), named.stripped = line.stripped

theorem strtok_headerText (line : HeaderLine) (lines : List HeaderLine) :
    strtok 10 (headerText (line :: lines)) =
      (field line.name line.value ++ [13]) :: strtok 10 (headerText lines) := by
  have htext : headerText (line :: lines) =
      (field line.name line.value ++ [13]) ++ 10 :: headerText lines := by
    simp [headerText, fields, crlf]
  have hlf : (10 : UInt8) ∉ field line.name line.value ++ [13] := by
    simp [field, line.lf_notMem_name, line.lf_notMem]
  rw [htext, strtok_append_cons hlf, if_neg (by simp)]

theorem withoutCr_stripped (line : HeaderLine) :
    withoutCr ((line.value ++ [13]).dropWhile isspace) = line.stripped := by
  have hcr := line.cr_notMem
  unfold HeaderLine.stripped
  rw [List.dropWhile_append]
  split
  case isTrue hnil =>
    have hnil : line.value.dropWhile isspace = [] := by simpa using hnil
    rw [hnil]
    decide
  case isFalse =>
    simp [withoutCr]

theorem getHttpHeaderValue_headerText (lines : List HeaderLine) (headerName : Bytes) :
    (getHttpHeaderValue (headerText lines) headerName).map withoutCr =
      (lines.find? (agrees headerName ·.name)).map HeaderLine.stripped := by
  unfold getHttpHeaderValue
  induction lines with
  | nil => rfl
  | cons line lines ih =>
    have hmatch : matchHeader (field line.name line.value ++ [13]) =
        some (line.name, (line.value ++ [13]).dropWhile isspace) := by
      rw [field, List.append_assoc, List.cons_append,
        matchHeader_append line.name_ne_nil line.colon_notMem]
      rfl
    rw [strtok_headerText, search_cons hmatch, List.find?_cons]
    cases agrees headerName line.name with
    | true => exact congrArg some (withoutCr_stripped line)
    | false => exact ih

/-- The lookup is the expected one exactly if no other value comes first. -/
theorem getHttpHeaderValue_iff (lines : List HeaderLine) (headerName : Bytes) :
    (getHttpHeaderValue (headerText lines) headerName).map withoutCr = expected lines headerName ↔
      Unconfused lines headerName := by
  rw [getHttpHeaderValue_headerText, expected, Unconfused]
  cases hfound : lines.find? (agrees headerName ·.name) with
  | none =>
    have hnone : lines.find? (·.name == headerName) = none := by
      rw [List.find?_eq_none] at hfound ⊢
      intro line hline hname
      refine hfound line hline ?_
      rw [beq_iff_eq.mp hname]
      exact beq_self_eq_true _
    simp [hnone]
  | some line =>
    simp [eq_comm]

-- ---------------------------------------------------------------------------
-- Two names with one beginning
-- ---------------------------------------------------------------------------

def contentType : HeaderLine :=
  ⟨bytes "Content-Type", bytes "text/html", by decide, by decide, by decide, by decide, by decide⟩

def contentLengthLine : HeaderLine :=
  ⟨bytes "Content-Length", bytes "5", by decide, by decide, by decide, by decide, by decide⟩

/-- The type is taken for the length. -/
theorem not_getHttpHeaderValue_contentLength :
    let lines := [contentType, contentLengthLine]
    getHttpHeaderValue (headerText lines) (bytes "Content-Length") = some (bytes "text/html\r") ∧
      expected lines (bytes "Content-Length") = some (bytes "5") := by
  decide

-- ---------------------------------------------------------------------------
-- A cut in the headers
-- ---------------------------------------------------------------------------

def keptPart (k : Nat) (text : Bytes) : Bytes := (text.take k).rtakeWhile (· ≠ 10)

def lostPart (k : Nat) (text : Bytes) : Bytes := (text.drop k).takeWhile (· ≠ 10)

def linesBefore (k : Nat) (text : Bytes) : List Bytes := strtok 10 ((text.take k).rdropWhile (· ≠ 10))

theorem strtok_rdropWhile (s t : Bytes) :
    strtok 10 (s.rdropWhile (· ≠ 10) ++ t) = strtok 10 (s.rdropWhile (· ≠ 10)) ++ strtok 10 t := by
  by_cases hnil : s.rdropWhile (· ≠ 10) = []
  · rw [hnil, strtok_nil, List.nil_append, List.nil_append]
  · have hlast := List.rdropWhile_last_not (· ≠ 10) s hnil
    rw [← List.dropLast_append_getLast hnil]
    have hlf : (s.rdropWhile (· ≠ 10)).getLast hnil = 10 := by simpa using hlast
    rw [hlf, List.append_assoc, List.singleton_append, strtok_append_delim, strtok_append_delim,
      strtok_nil, List.append_nil]

theorem lf_notMem_keptPart (k : Nat) (text : Bytes) : (10 : UInt8) ∉ keptPart k text := fun h => by
  simpa using List.mem_rtakeWhile_imp h

theorem strtok_take (k : Nat) (text : Bytes) :
    strtok 10 (text.take k) = linesBefore k text ++ strtok 10 (keptPart k text) := by
  rw [linesBefore, keptPart, ← strtok_rdropWhile, List.rdropWhile_append_rtakeWhile]

theorem strtok_text (k : Nat) (text : Bytes) :
    strtok 10 text = linesBefore k text ++ strtok 10 (keptPart k text ++ text.drop k) := by
  rw [linesBefore, keptPart, ← strtok_rdropWhile, ← List.append_assoc,
    List.rdropWhile_append_rtakeWhile, List.take_append_drop]

theorem exists_strtok_cut (hne : keptPart k text ≠ []) : ∃ rest,
    strtok 10 (keptPart k text ++ text.drop k) = (keptPart k text ++ lostPart k text) :: rest := by
  have hlost : (10 : UInt8) ∉ lostPart k text := fun h => by simpa using List.mem_takeWhile_imp h
  have hline : (10 : UInt8) ∉ keptPart k text ++ lostPart k text := by
    simp [lf_notMem_keptPart, hlost]
  have hne' : keptPart k text ++ lostPart k text ≠ [] := List.append_ne_nil_of_left_ne_nil hne _
  rw [← List.takeWhile_append_dropWhile (p := (· ≠ 10)) (l := text.drop k), ← List.append_assoc]
  change ∃ rest, strtok 10 (keptPart k text ++ lostPart k text ++ _) = _
  cases hrest : (text.drop k).dropWhile (· ≠ 10) with
  | nil => exact ⟨[], by rw [List.append_nil]; exact strtok_word hline hne'⟩
  | cons c rest =>
    have hc : c = 10 := by
      have hhead := List.head?_dropWhile_not (· ≠ (10 : UInt8)) (text.drop k)
      rw [hrest] at hhead
      simpa using hhead
    rw [hc, strtok_append_cons hline, if_neg hne']
    exact ⟨_, rfl⟩

-- ---------------------------------------------------------------------------
-- What a cut changes
-- ---------------------------------------------------------------------------

/-- The bytes behind a value are only its CR, or only white space where it is
white space to that point. -/
def Intact (value lost : Bytes) : Prop :=
  if value.all isspace then lost.all isspace = true
  else lost = [] ∨ lost = [13] ∧ value.getLast? ≠ some 13

instance (value lost : Bytes) : Decidable (Intact value lost) := 
  inferInstanceAs (Decidable (if value.all isspace then lost.all isspace = true
    else lost = [] ∨ lost = [13] ∧ value.getLast? ≠ some 13))

theorem length_withoutCr_le (value : Bytes) : (withoutCr value).length ≤ value.length := by
  unfold withoutCr
  split
  · exact List.length_dropLast.trans_le (Nat.sub_le _ _)
  · exact Nat.le_refl _

theorem withoutCr_concat (value : Bytes) (c : UInt8) :
    withoutCr (value ++ [c]) = if c = 13 then value else value ++ [c] := by
  simp [withoutCr]

theorem withoutCr_append_iff (value lost : Bytes) :
    withoutCr value = withoutCr (value ++ lost) ↔
      lost = [] ∨ lost = [13] ∧ value.getLast? ≠ some 13 := by
  rcases List.eq_nil_or_concat' lost with rfl | ⟨lost, c, rfl⟩
  · simp
  rw [← List.append_assoc, withoutCr_concat]
  have hle := length_withoutCr_le value
  by_cases hc : c = 13
  · subst hc
    rw [if_pos rfl]
    constructor
    · intro h
      have hnil : lost = [] := by
        have hlength := congrArg List.length h
        rw [List.length_append] at hlength
        exact List.eq_nil_of_length_eq_zero (by omega)
      subst hnil
      refine .inr ⟨rfl, fun hlast => ?_⟩
      rw [List.append_nil, withoutCr, if_pos hlast] at h
      have hlength := congrArg List.length h
      rw [List.length_dropLast] at hlength
      have hnil : value = [] := List.eq_nil_of_length_eq_zero (by omega)
      simp [hnil] at hlast
    · rintro (h | ⟨h, hlast⟩)
      · simp at h
      · have hnil : lost = [] := by simpa using h
        rw [hnil, List.append_nil, withoutCr, if_neg hlast]
  · rw [if_neg hc]
    refine iff_of_false (fun h => ?_) ?_
    · have hlength := congrArg List.length h
      simp only [List.length_append, List.length_singleton] at hlength
      omega
    · rintro (h | ⟨h, -⟩)
      · simp at h
      · exact hc (by simpa using congrArg List.getLast? h)

theorem intact_iff (value lost : Bytes) :
    withoutCr (value.dropWhile isspace) = withoutCr ((value ++ lost).dropWhile isspace) ↔
      Intact value lost := by
  rw [List.dropWhile_append]
  unfold Intact
  by_cases hspace : value.all isspace
  · have hnil : value.dropWhile isspace = [] := by simpa using hspace
    have hiff := withoutCr_append_iff [] (lost.dropWhile isspace)
    rw [List.nil_append] at hiff
    rw [hnil, if_pos hspace, if_pos (by rfl), hiff]
    constructor
    · rintro (h | ⟨h, -⟩)
      · simpa using h
      · have hhead := List.head?_dropWhile_not isspace lost
        rw [h] at hhead
        contradiction
    · intro h
      exact .inl (by simpa using h)
  · have hnil : value.dropWhile isspace ≠ [] := by simpa using hspace
    rw [if_neg hspace, if_neg (by simpa using hspace), withoutCr_append_iff]
    have hlast : (value.dropWhile isspace).getLast? = value.getLast? := by
      conv_rhs => rw [← List.takeWhile_append_dropWhile (p := isspace) (l := value)]
      rw [List.getLast?_append_of_ne_nil _ hnil]
    rw [hlast]

/-- Every value that is found in the cut headers is found whole in the section. -/
def Unforged (whole headers : Bytes) : Prop :=
  ∀ headerName value, getHttpHeaderValue headers headerName = some value →
    ∃ complete, getHttpHeaderValue whole headerName = some complete ∧
      withoutCr value = withoutCr complete

/-- The line that is cut is no header up to the cut, or an earlier line ends every
lookup of its name, or the cut leaves its value intact. -/
def Harmless (k : Nat) (text : Bytes) : Prop :=
  match matchHeader (keptPart k text) with
  | none => True
  | some (name, _) => (∀ line ∈ linesBefore k text, passes name line) →
      Intact ((keptPart k text).drop (name.length + 1)) (lostPart k text)

theorem passes_congr (h : agrees headerName name) (line : Bytes) :
    passes headerName line = passes name line := by
  have htake : headerName.take 8 = name.take 8 := by simpa [agrees] using h
  simp only [passes, agrees, htake]

theorem matchHeader_continued (h : matchHeader line = some (name, value)) (lost : Bytes) :
    value = (line.drop (name.length + 1)).dropWhile isspace ∧
      matchHeader (line ++ lost) =
        some (name, (line.drop (name.length + 1) ++ lost).dropWhile isspace) := by
  obtain ⟨rest, rfl, hname, hcolon⟩ := exists_of_matchHeader h
  have hdrop : (name ++ 58 :: rest).drop (name.length + 1) = rest := by
    rw [List.drop_length_add_append, List.drop_one, List.tail_cons]
  rw [matchHeader_append hname hcolon] at h
  rw [hdrop, List.append_assoc, List.cons_append, matchHeader_append hname hcolon]
  exact ⟨(Prod.mk.inj (Option.some.inj h)).2.symm, rfl⟩

theorem unforged_iff (k : Nat) (text : Bytes) : Unforged text (text.take k) ↔ Harmless k text := by
  unfold Unforged Harmless getHttpHeaderValue
  rw [strtok_take]
  have htext := strtok_text k text
  by_cases hne : keptPart k text = []
  · rw [hne, strtok_nil, List.append_nil]
    refine iff_of_true (fun headerName value h => ⟨value, ?_, rfl⟩) trivial
    rw [htext]
    exact search_append_of_some h _
  obtain ⟨rest, hcut⟩ := exists_strtok_cut hne
  rw [hcut] at htext
  rw [strtok_word (lf_notMem_keptPart k text) hne, htext]
  constructor
  · intro h
    split
    case h_1 => trivial
    case h_2 name value hmatch =>
      intro hall
      obtain ⟨rfl, hwhole⟩ := matchHeader_continued hmatch (lostPart k text)
      have hself : agrees name name := beq_self_eq_true _
      obtain ⟨complete, hcomplete, heq⟩ := h name _ (by
        rw [search_append hall, search_singleton_iff]
        exact ⟨name, hmatch, hself⟩)
      rw [search_append hall, search_cons hwhole, if_pos hself] at hcomplete
      rw [← Option.some.inj hcomplete] at heq
      exact (intact_iff _ _).mp heq
  · intro h headerName value hfound
    by_cases hall : ∀ line ∈ linesBefore k text, passes headerName line
    · rw [search_append hall, search_singleton_iff] at hfound
      obtain ⟨name, hmatch, hagrees⟩ := hfound
      obtain ⟨rfl, hwhole⟩ := matchHeader_continued hmatch (lostPart k text)
      rw [hmatch] at h
      refine ⟨_, by rw [search_append hall, search_cons hwhole, if_pos hagrees], ?_⟩
      exact (intact_iff _ _).mpr (h fun line hline => passes_congr hagrees line ▸ hall line hline)
    · push Not at hall
      obtain ⟨line, hmem, hline⟩ := hall
      have hstop : passes headerName line = false := by simpa using hline
      rw [search_append_of_not hmem hstop] at hfound ⊢
      exact ⟨value, hfound, rfl⟩

def headerSection (env : Env) (text : Bytes) : Bytes :=
  stringAt env text ((requestOffsets env text).requestLineOffset + 1)

def headerLimit (env : Env) (text : Bytes) : Nat :=
  min (requestOffsets env text).headersSize baseHttpRequestHeaderSize

theorem requestHead_headers_eq (env : Env) (text : Bytes) :
    (requestHead env text (requestOffsets env text)).headers =
      some ((headerSection env text).take (headerLimit env text)) := by
  obtain ⟨method, uri, version, heq⟩ := requestHead_frame env text (requestOffsets env text)
  rw [heq]
  rfl

theorem headers_unforged_iff (env : Env) (text : Bytes) :
    (∀ headers ∈ (requestHead env text (requestOffsets env text)).headers,
        Unforged (headerSection env text) headers) ↔
      Harmless (headerLimit env text) (headerSection env text) := by
  rw [requestHead_headers_eq, ← unforged_iff]
  simp

-- ---------------------------------------------------------------------------
-- A length that is cut
-- ---------------------------------------------------------------------------

def Env.trimming : Env := { Env.ok with config := { Env.ok.config with trimLargeHeaders := true } }

/-- The limit of 1023 bytes is behind the second digit of the length. -/
def cutRequest : Bytes :=
  bytes "POST / HTTP/1.1\r\nX: " ++ List.replicate 1000 97 ++
    bytes "\r\nContent-Length: 12345\r\n\r\n"

theorem not_unforged_cutRequest :
    ((parseHttpRequest Env.trimming cutRequest 1047).request.map fun request =>
      (request.bodySize, getHttpHeaderValue (request.headers.getD []) (bytes "Content-Length"))) =
        some (12, some (bytes "12")) ∧
    getHttpHeaderValue (headerSection Env.trimming cutRequest) (bytes "Content-Length") =
      some (bytes "12345\r") := by
  decide +kernel

end GeoNS.Http.Headers
