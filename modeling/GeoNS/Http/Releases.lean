import GeoNS.Holdings
import GeoNS.Http.Server

/-!
# What an answer releases

The branches of a file and of a listing acquire streams, cookies and blocks, and
release them at one end for all. A MIME type that is not found is replaced by a
literal, and the clean-up frees what stands there.
-/

namespace GeoNS.Http.Releases

open CString Holdings Runs

/-- `literal` is no block of the allocator. -/
inductive Token
  | request
  | requestHeaders
  | requestBody
  | file
  | sizeFile
  | fileContent
  | magicCookie
  | mimeType
  | headerValue
  | headers
  | response
  | responseBuffer
  | directory
  | listing
  | literal
  deriving DecidableEq, Repr

abbrev Acts := List (Act Token)

structure Header where
  memalloc : Bool
  grow : Bool

/-- What the request holds, what the file system has at the path, and the outcome of
each call that can fail; `entries` counts those that are listed. -/
structure Outcomes where
  requestHeaders : Bool
  requestBody : Bool
  isFile : Bool
  directoryIndexing : Bool
  isDirectory : Bool
  fopen : Bool
  sizeFopen : Bool
  memalloc : Bool
  magicOpen : Bool
  magicLoad : Bool
  magicFile : Bool
  strdupMimeType : Bool
  contentType : Header
  contentLength : Header
  connection : Header
  response : Bool
  responseBuffer : Bool
  opendir : Bool
  entries : Nat
  realloc : Nat → Bool
  strdupBody : Bool

/-- The acts of a branch, and whether it returns: it does not where NULL is read. -/
structure Trace where
  acts : Acts
  returns : Bool

-- ---------------------------------------------------------------------------
-- The response
-- ---------------------------------------------------------------------------

def killHttpConnection (o : Outcomes) : Acts :=
  (if o.requestBody then [Act.release Token.requestBody] else []) ++
    (if o.requestHeaders then [Act.release Token.requestHeaders] else []) ++ [.release .request]

/-- The acts, and whether there is a block after them; one that grows is the same. -/
def setHttpResponseHeader (headers : Bool) (header : Header) : Acts × Bool :=
  if !header.memalloc then ([], headers)
  else
    ([.acquire .headerValue] ++ (if !headers && header.grow then [Act.acquire Token.headers] else []) ++
      [.release .headerValue], headers || header.grow)

def responseHeaders (o : Outcomes) : Acts × Bool :=
  let (acts, headers) := setHttpResponseHeader false o.contentType
  let (acts', headers) := setHttpResponseHeader headers o.contentLength
  let (acts'', headers) := setHttpResponseHeader headers o.connection
  (acts ++ acts' ++ acts'', headers)

/-- `send_http_response` reads the response that `create_http_response` may not have
given. The headers are freed with it. -/
def sendHttpStatus (o : Outcomes) (headers : Bool) : Trace :=
  if !o.response then ⟨[], false⟩
  else
    ⟨[.acquire .response] ++
      (if o.responseBuffer then [Act.acquire Token.responseBuffer, .release .responseBuffer] else []) ++
      (if headers then [Act.release Token.headers] else []) ++ [.release .response], true⟩

def answer (o : Outcomes) (acts : Acts) (headers : Bool) (cleanUp : Acts) : Trace :=
  let sent := sendHttpStatus o headers
  if sent.returns then ⟨acts ++ sent.acts ++ killHttpConnection o ++ cleanUp, true⟩
  else ⟨acts ++ sent.acts, false⟩

-- ---------------------------------------------------------------------------
-- Files
-- ---------------------------------------------------------------------------

def getFileSize (o : Outcomes) : Acts := if o.sizeFopen then [Act.acquire Token.sizeFile, .release .sizeFile] else []

def getMimeType (o : Outcomes) : Acts × Bool :=
  if !o.magicOpen then ([], false)
  else if !o.magicLoad then ([.acquire .magicCookie, .release .magicCookie], false)
  else if !o.magicFile then ([.acquire .magicCookie, .release .magicCookie], false)
  else if !o.strdupMimeType then ([.acquire .magicCookie, .release .magicCookie], false)
  else ([.acquire .magicCookie, .acquire .mimeType, .release .magicCookie], true)

def serveFile (o : Outcomes) : Trace :=
  if !o.fopen then ⟨killHttpConnection o, true⟩
  else
    let opened := .acquire .file :: getFileSize o
    if !o.memalloc then ⟨opened ++ [.release .file] ++ killHttpConnection o, true⟩
    else
      let (mimeActs, mimeType) := getMimeType o
      let (headerActs, headers) := responseHeaders o
      answer o (opened ++ [.acquire .fileContent, .release .file] ++ mimeActs ++ headerActs) headers
        [.release .fileContent, .release (if mimeType then .mimeType else .literal)]

-- ---------------------------------------------------------------------------
-- Directories
-- ---------------------------------------------------------------------------

/-- The loop over the entries that are left, with the number of allocations so far:
the text is there after the first. The result is whether it is at the end, `none`
where it was freed. -/
def readEntries (realloc : Nat → Bool) : (left : Nat) → (i : Nat) → Acts × Option Bool
  | 0, i => ([], some (i != 0))
  | left + 1, i =>
    if realloc i then
      let (acts, body) := readEntries realloc left (i + 1)
      ((if i = 0 then [Act.acquire Token.listing] else []) ++ acts, body)
    else (if i = 0 then [] else [Act.release Token.listing], none)

def getDirectoryEntries (o : Outcomes) : Acts × Option Bool :=
  if !o.opendir then ([], none)
  else
    let (acts, body) := readEntries o.realloc o.entries 0
    ([.acquire .directory] ++ acts ++ [.release .directory], body)

def serveDirectory (o : Outcomes) : Trace :=
  match getDirectoryEntries o with
  | (acts, none) => answer o acts false []
  | (acts, some body) =>
    -- `strlen` reads the copy that `strdup` may not have given
    if !body && !o.strdupBody then ⟨acts, false⟩
    else
      let (headerActs, headers) := responseHeaders o
      answer o (acts ++ (if body then [] else [Act.acquire Token.listing]) ++ headerActs) headers [.release .listing]

def servePublic (o : Outcomes) : Trace :=
  if o.isFile then serveFile o
  else if o.directoryIndexing && o.isDirectory then serveDirectory o
  else answer o [] false []

-- ---------------------------------------------------------------------------
-- What is held
-- ---------------------------------------------------------------------------

def acquireRequest (o : Outcomes) : Acts :=
  [.acquire .request] ++ (if o.requestHeaders then [Act.acquire Token.requestHeaders] else []) ++
    (if o.requestBody then [Act.acquire Token.requestBody] else [])

/-- The branch returns, has released only what it held, and holds nothing. -/
structure ReleasesAll (o : Outcomes) : Prop where
  returns : (servePublic o).returns
  released : held (acquireRequest o ++ (servePublic o).acts) = some []

/-- There is a MIME type where a file is sent, a text where a listing is, and a
response for every answer. -/
def Supplied (o : Outcomes) : Prop :=
  if o.isFile then
    o.fopen → o.memalloc →
      o.response ∧ o.magicOpen ∧ o.magicLoad ∧ o.magicFile ∧ o.strdupMimeType
  else
    o.response ∧ (o.directoryIndexing → o.isDirectory → o.opendir → o.entries = 0 → o.strdupBody)

theorem ReleasesAll.balanced (h : ReleasesAll o) (r : Token) :
    (acquireRequest o ++ (servePublic o).acts).count (.release r) =
      (acquireRequest o ++ (servePublic o).acts).count (.acquire r) := by
  have hcount := count_held h.released r
  rwa [List.count_nil, Nat.zero_add] at hcount

def requestTokens (o : Outcomes) : List Token :=
  (if o.requestBody then [Token.requestBody] else []) ++ (if o.requestHeaders then [Token.requestHeaders] else []) ++
    [.request]

theorem held_acquireRequest (o : Outcomes) : held (acquireRequest o) = some (requestTokens o) := by
  unfold acquireRequest requestTokens
  cases o.requestHeaders <;> cases o.requestBody <;> rfl

theorem releasesAll_iff (o : Outcomes) : ReleasesAll o ↔
    (servePublic o).returns ∧ run step (requestTokens o) (servePublic o).acts = some [] := by
  have hheld : held (acquireRequest o ++ (servePublic o).acts) =
      run step (requestTokens o) (servePublic o).acts := by
    rw [held, run_append, ← held, held_acquireRequest, Option.bind_some]
  constructor
  · rintro ⟨hreturns, hreleased⟩
    exact ⟨hreturns, hheld ▸ hreleased⟩
  · rintro ⟨hreturns, hreleased⟩
    exact ⟨hreturns, hheld.trans hreleased⟩

theorem takes_setHttpResponseHeader (headers : Bool) (header : Header) :
    Takes (if headers then [Token.headers] else []) (setHttpResponseHeader headers header).1
      (if (setHttpResponseHeader headers header).2 then [Token.headers] else []) := by
  obtain ⟨memalloc, grow⟩ := header
  cases headers <;> cases memalloc <;> cases grow <;> exact .of_run fun _ => rfl

theorem takes_responseHeaders (o : Outcomes) :
    Takes [] (responseHeaders o).1 (if (responseHeaders o).2 then [Token.headers] else []) :=
  ((takes_setHttpResponseHeader false o.contentType).append (takes_setHttpResponseHeader _ o.contentLength)).append
    (takes_setHttpResponseHeader _ o.connection)

theorem takes_getFileSize (o : Outcomes) : Takes [] (getFileSize o) [] := by
  unfold getFileSize
  split <;> exact .of_run fun _ => rfl

theorem takes_getMimeType (o : Outcomes) :
    Takes [] (getMimeType o).1 (if (getMimeType o).2 then [Token.mimeType] else []) := by
  unfold getMimeType
  cases o.magicOpen <;> cases o.magicLoad <;> cases o.magicFile <;> cases o.strdupMimeType <;> exact .of_run fun _ => rfl

theorem getMimeType_iff (o : Outcomes) :
    (getMimeType o).2 ↔ o.magicOpen ∧ o.magicLoad ∧ o.magicFile ∧ o.strdupMimeType := by
  unfold getMimeType
  cases o.magicOpen <;> cases o.magicLoad <;> cases o.magicFile <;> cases o.strdupMimeType <;> simp

theorem takes_sendHttpStatus (hresponse : o.response) (headers : Bool) :
    (sendHttpStatus o headers).returns ∧
      Takes (if headers then [Token.headers] else []) (sendHttpStatus o headers).acts [] := by
  unfold sendHttpStatus
  rw [hresponse]
  cases o.responseBuffer <;> cases headers <;> exact ⟨rfl, .of_run fun _ => rfl⟩

theorem takes_readEntries (realloc : Nat → Bool) (left i : Nat) :
    Takes (if i = 0 then [] else [.listing]) (readEntries realloc left i).1
      (if (readEntries realloc left i).2 = some true then [Token.listing] else []) := by
  induction left generalizing i with
  | zero =>
    cases i with
    | zero => exact .nil _
    | succ i => exact .nil _
  | succ left ih =>
    have hrest : Takes [.listing] (readEntries realloc left (i + 1)).1
        (if (readEntries realloc left (i + 1)).2 = some true then [Token.listing] else []) := ih (i + 1)
    by_cases hrealloc : realloc i
    · rw [readEntries, if_pos hrealloc]
      cases i with
      | zero => exact (Takes.acquire Token.listing).append hrest
      | succ i => exact hrest
    · rw [readEntries, if_neg hrealloc]
      cases i with
      | zero => exact .nil _
      | succ i => exact .release Token.listing

theorem readEntries_body (realloc : Nat → Bool) (left i : Nat) :
    (readEntries realloc left i).2 = some false ↔ left = 0 ∧ i = 0 := by
  induction left generalizing i with
  | zero => simp [readEntries]
  | succ left ih =>
    rw [readEntries]
    split
    · simp [ih]
    · simp

theorem takes_getDirectoryEntries (o : Outcomes) :
    Takes [] (getDirectoryEntries o).1 (if (getDirectoryEntries o).2 = some true then [Token.listing] else []) := by
  unfold getDirectoryEntries
  cases o.opendir with
  | false => exact .nil _
  | true =>
    have hread := (takes_readEntries o.realloc o.entries 0).frame [.directory]
    have hclosed := ((Takes.release Token.directory).frame
      (if (readEntries o.realloc o.entries 0).2 = some true then [Token.listing] else [])).perm
        List.perm_append_comm (.refl _)
    exact ((Takes.acquire Token.directory).append hread).append hclosed

theorem getDirectoryEntries_body (o : Outcomes) :
    (getDirectoryEntries o).2 = some false ↔ o.opendir ∧ o.entries = 0 := by
  unfold getDirectoryEntries
  cases o.opendir with
  | false => simp
  | true => simpa using readEntries_body o.realloc o.entries 0

theorem takes_killHttpConnection (o : Outcomes) : Takes (requestTokens o) (killHttpConnection o) [] := by
  unfold requestTokens killHttpConnection
  cases o.requestBody <;> cases o.requestHeaders <;> exact .of_run fun _ => rfl

/-- With a response the answer releases the headers, the request and what is cleaned
up. -/
theorem answer_takes (hresponse : o.response) (hacts : Takes [] acts ((if headers then [Token.headers] else []) ++ top))
    (hcleanUp : Takes top cleanUp []) :
    (answer o acts headers cleanUp).returns ∧ Takes (requestTokens o) (answer o acts headers cleanUp).acts [] := by
  obtain ⟨hreturns, hsent⟩ := takes_sendHttpStatus hresponse headers
  unfold answer
  dsimp only
  rw [if_pos hreturns]
  refine ⟨rfl, ?_⟩
  have hopened := hacts.frame (requestTokens o)
  have hanswered := ((hsent.frame top).frame (requestTokens o))
  have hkilled := ((takes_killHttpConnection o).frame top).perm List.perm_append_comm (.refl _)
  exact ((hopened.append hanswered).append hkilled).append hcleanUp

theorem answer_faults (hresponse : o.response = false) (acts : Acts) (headers : Bool) (cleanUp : Acts) :
    (answer o acts headers cleanUp).returns = false := by
  simp [answer, sendHttpStatus, hresponse]

theorem answer_append (hresponse : o.response) (acts : Acts) (headers : Bool) (cleanUp more : Acts) :
    (answer o acts headers (cleanUp ++ more)).acts = (answer o acts headers cleanUp).acts ++ more := by
  have hreturns := (takes_sendHttpStatus hresponse headers).1
  unfold answer
  dsimp only
  rw [if_pos hreturns, if_pos hreturns, List.append_assoc _ cleanUp]

-- ---------------------------------------------------------------------------
-- The branches
-- ---------------------------------------------------------------------------

/-- The branch returns with nothing held. -/
def Settles (o : Outcomes) (t : Trace) : Prop := t.returns ∧ run step (requestTokens o) t.acts = some []

theorem settles_answer (hresponse : o.response)
    (hacts : Takes [] acts ((if headers then [Token.headers] else []) ++ top)) (hcleanUp : Takes top cleanUp []) :
    Settles o (answer o acts headers cleanUp) :=
  ⟨(answer_takes hresponse hacts hcleanUp).1, (answer_takes hresponse hacts hcleanUp).2.run_eq⟩

theorem settles_bare (hresponse : o.response) (hacts : Takes [] acts []) : Settles o (answer o acts false []) :=
  settles_answer hresponse hacts (.nil _)

theorem not_settles_answer (hresponse : o.response = false) (acts : Acts) (headers : Bool) (cleanUp : Acts) :
    ¬ Settles o (answer o acts headers cleanUp) := by
  rintro ⟨hreturns, -⟩
  rw [answer_faults hresponse] at hreturns
  contradiction

theorem not_settles_more (hresponse : o.response) (h : Settles o (answer o acts headers cleanUp)) (r : Token) :
    ¬ Settles o (answer o acts headers (cleanUp ++ [.release r])) := by
  rintro ⟨-, hreleased⟩
  rw [answer_append hresponse, run_append, h.2, Option.bind_some, run_release_of_notMem List.not_mem_nil] at hreleased
  contradiction

theorem takes_openFile (o : Outcomes) :
    Takes [] (.acquire .file :: getFileSize o ++ [.acquire .fileContent, .release .file] ++ (getMimeType o).1 ++
        (responseHeaders o).1)
      ((if (responseHeaders o).2 then [Token.headers] else []) ++
        ((if (getMimeType o).2 then [Token.mimeType] else []) ++ [.fileContent])) := by
  have hopened := (Takes.acquire Token.file).append ((takes_getFileSize o).frame [.file])
  have hread : Takes [.file] [.acquire .fileContent, .release .file] [Token.fileContent] := .of_run fun _ => rfl
  have hmime := (takes_getMimeType o).frame [.fileContent]
  have hheaders := (takes_responseHeaders o).frame
    ((if (getMimeType o).2 then [Token.mimeType] else []) ++ [.fileContent])
  exact ((hopened.append hread).append hmime).append hheaders

theorem settles_serveFile_iff (o : Outcomes) : Settles o (serveFile o) ↔
    (o.fopen → o.memalloc → o.response ∧ o.magicOpen ∧ o.magicLoad ∧ o.magicFile ∧ o.strdupMimeType) := by
  have hopen := takes_openFile o
  rw [← getMimeType_iff]
  unfold serveFile
  generalize getMimeType o = mime at hopen ⊢
  obtain ⟨mimeActs, mimeType⟩ := mime
  cases o.fopen with
  | false => exact iff_of_true ⟨rfl, (takes_killHttpConnection o).run_eq⟩ nofun
  | true =>
    cases o.memalloc with
    | false =>
      have hopened := (Takes.acquire Token.file).append ((takes_getFileSize o).frame [.file])
      have hclosed := (hopened.append (Takes.release Token.file)).frame (requestTokens o)
      exact iff_of_true ⟨rfl, (hclosed.append (takes_killHttpConnection o)).run_eq⟩ nofun
    | true =>
      cases hresponse : o.response with
      | false => exact iff_of_false (not_settles_answer hresponse _ _ _) fun h => nomatch (h rfl rfl).1
      | true =>
        cases mimeType with
        | true =>
          have hcleanUp : Takes [Token.mimeType, .fileContent] [.release .fileContent, .release .mimeType] [] :=
            .of_run fun _ => rfl
          exact iff_of_true (settles_answer hresponse hopen hcleanUp) fun _ _ => ⟨rfl, rfl⟩
        | false =>
          -- the literal is released, which was never acquired
          have hsettled := settles_answer hresponse hopen (Takes.release Token.fileContent)
          exact iff_of_false (not_settles_more hresponse hsettled .literal) fun h => nomatch (h rfl rfl).2

theorem takes_openDirectory (o : Outcomes) (body : Bool) (h : (getDirectoryEntries o).2 = some body) :
    Takes [] ((getDirectoryEntries o).1 ++ (if body then [] else [Act.acquire Token.listing]) ++ (responseHeaders o).1)
      ((if (responseHeaders o).2 then [Token.headers] else []) ++ [.listing]) := by
  have hentries := takes_getDirectoryEntries o
  have hheaders := (takes_responseHeaders o).frame [.listing]
  rw [h] at hentries
  cases body with
  | true => exact (hentries.append (.nil _)).append hheaders
  | false => exact (hentries.append (.acquire _)).append hheaders

theorem settles_serveDirectory_iff (o : Outcomes) : Settles o (serveDirectory o) ↔
    o.response ∧ (o.opendir → o.entries = 0 → o.strdupBody) := by
  have hempty := getDirectoryEntries_body o
  have hentries := takes_getDirectoryEntries o
  have hopen := takes_openDirectory o
  have hwhole : (o.opendir → o.entries = 0 → o.strdupBody) ↔
      ((getDirectoryEntries o).2 = some false → o.strdupBody) := by
    rw [hempty, and_imp]
  rw [hwhole]
  unfold serveDirectory
  generalize getDirectoryEntries o = entries at hentries hopen ⊢
  obtain ⟨acts, result⟩ := entries
  cases result with
  | none =>
    cases hresponse : o.response with
    | false => exact iff_of_false (not_settles_answer hresponse _ _ _) fun h => nomatch h.1
    | true => exact iff_of_true (settles_bare hresponse hentries) ⟨rfl, nofun⟩
  | some body =>
    have hanswer := hopen body rfl
    cases body with
    | true =>
      cases hresponse : o.response with
      | false => exact iff_of_false (not_settles_answer hresponse _ _ _) fun h => nomatch h.1
      | true => exact iff_of_true (settles_answer hresponse hanswer (.release _)) ⟨rfl, nofun⟩
    | false =>
      cases hstrdup : o.strdupBody with
      | false => exact iff_of_false (fun h => nomatch h.1) fun h => nomatch h.2 rfl
      | true =>
        cases hresponse : o.response with
        | false => exact iff_of_false (not_settles_answer hresponse _ _ _) fun h => nomatch h.1
        | true => exact iff_of_true (settles_answer hresponse hanswer (.release _)) ⟨rfl, fun _ => rfl⟩

theorem releasesAll_iff_supplied (o : Outcomes) : ReleasesAll o ↔ Supplied o := by
  have hsettles : ReleasesAll o ↔ Settles o (servePublic o) := releasesAll_iff o
  rw [hsettles]
  unfold servePublic Supplied
  split
  case isTrue => exact settles_serveFile_iff o
  case isFalse =>
    split
    case isTrue hlists =>
      rw [Bool.and_eq_true] at hlists
      rw [settles_serveDirectory_iff]
      exact and_congr_right fun _ => ⟨fun h _ _ => h, fun h => h hlists.1 hlists.2⟩
    case isFalse hlists =>
      rw [Bool.and_eq_true] at hlists
      cases hresponse : o.response with
      | false => exact iff_of_false (not_settles_answer hresponse _ _ _) fun h => nomatch h.1
      | true =>
        exact iff_of_true (settles_bare hresponse (.nil _))
          ⟨rfl, fun hindexing hdirectory => absurd ⟨hindexing, hdirectory⟩ hlists⟩

-- ---------------------------------------------------------------------------
-- The callback's calls
-- ---------------------------------------------------------------------------

/-- The resource of a token in the callback's calls, which leave out those of the
header texts, the buffer and the directory. -/
def Token.resource : Token → Option Resource
  | .request => some .request
  | .requestHeaders => some .requestHeaders
  | .file | .sizeFile => some .file
  | .fileContent => some .fileContent
  | .magicCookie => some .magicCookie
  | .mimeType => some .mimeType
  | .headers => some .responseHeaders
  | .response => some .response
  | .listing => some .entries
  | .requestBody | .headerValue | .responseBuffer | .directory | .literal => none

def callOf : Act Token → Option Call
  | .acquire r => r.resource.map .acquire
  | .release r => r.resource.map .release

def isAct : Call → Bool
  | .acquire _ | .release _ => true
  | _ => false

def outcomesOf (env : Env) (request : HttpRequest) (filePath : Bytes) : Outcomes where
  requestHeaders := request.headers.isSome
  requestBody := false
  isFile := env.isFile filePath
  directoryIndexing := env.config.directoryIndexing
  isDirectory := env.isDirectory filePath
  fopen := env.fopen
  sizeFopen := env.fileSize.isSome
  memalloc := env.memalloc
  magicOpen := env.magicOpen
  magicLoad := env.magicLoad
  magicFile := env.magicFile.isSome
  strdupMimeType := true
  contentType := ⟨true, true⟩
  contentLength := ⟨true, true⟩
  connection := ⟨true, true⟩
  response := true
  responseBuffer := true
  opendir := env.entries.isSome
  entries := if env.entries = some none then 0 else 1
  realloc _ := true
  strdupBody := true

theorem acts_kill (env : Env) (request : HttpRequest) (filePath : Bytes) :
    (killHttpConnection (outcomesOf env request filePath)).filterMap callOf =
      (Http.killHttpConnection request).filter isAct := by
  unfold killHttpConnection Http.killHttpConnection outcomesOf
  cases request.headers <;> rfl

theorem acts_getFileSize (env : Env) (request : HttpRequest) (filePath : Bytes) :
    (getFileSize (outcomesOf env request filePath)).filterMap callOf =
      (Http.getFileSize env filePath).1.filter isAct := by
  unfold getFileSize Http.getFileSize outcomesOf
  cases env.fileSize <;> rfl

theorem acts_getMimeType (env : Env) (request : HttpRequest) (filePath : Bytes) :
    (getMimeType (outcomesOf env request filePath)).1.filterMap callOf =
        (Http.getMimeType env filePath).1.filter isAct ∧
      (getMimeType (outcomesOf env request filePath)).2 = (Http.getMimeType env filePath).2.isSome := by
  unfold getMimeType Http.getMimeType outcomesOf
  cases env.magicOpen with
  | false => exact ⟨rfl, rfl⟩
  | true =>
    cases env.magicLoad with
    | false => exact ⟨rfl, rfl⟩
    | true => cases env.magicFile <;> exact ⟨rfl, rfl⟩

theorem acts_answer (env : Env) (request : HttpRequest) (filePath : Bytes) (acts cleanUp : Acts) (body : Bytes)
    (contentType contentLength : Bytes) :
    (answer (outcomesOf env request filePath) (acts ++ (responseHeaders (outcomesOf env request filePath)).1)
        (responseHeaders (outcomesOf env request filePath)).2 cleanUp).acts.filterMap callOf =
      acts.filterMap callOf ++
        (.acquire .responseHeaders :: Http.sendHttpStatus 200 body (Http.responseHeaders contentType contentLength) ++
          Http.killHttpConnection request).filter isAct ++ cleanUp.filterMap callOf := by
  have hkill := acts_kill env request filePath
  have hanswer : (answer (outcomesOf env request filePath)
      (acts ++ (responseHeaders (outcomesOf env request filePath)).1)
      (responseHeaders (outcomesOf env request filePath)).2 cleanUp).acts =
      acts ++ (responseHeaders (outcomesOf env request filePath)).1 ++
        (sendHttpStatus (outcomesOf env request filePath) true).acts ++
        killHttpConnection (outcomesOf env request filePath) ++ cleanUp := rfl
  have hheaders : (responseHeaders (outcomesOf env request filePath)).1.filterMap callOf =
      [.acquire .responseHeaders] := rfl
  have hsent : (sendHttpStatus (outcomesOf env request filePath) true).acts.filterMap callOf =
      (Http.sendHttpStatus 200 body (Http.responseHeaders contentType contentLength)).filter isAct := rfl
  have hcons : (Call.acquire .responseHeaders ::
      Http.sendHttpStatus 200 body (Http.responseHeaders contentType contentLength)).filter isAct =
        [.acquire .responseHeaders] ++
          (Http.sendHttpStatus 200 body (Http.responseHeaders contentType contentLength)).filter isAct := rfl
  rw [hanswer]
  simp only [List.filterMap_append, List.filter_append, hkill, hheaders, hsent, hcons, List.append_assoc]

theorem acts_answer_bare (env : Env) (request : HttpRequest) (filePath : Bytes) (acts : Acts) (statusCode : Nat)
    (body : Bytes) :
    (answer (outcomesOf env request filePath) acts false []).acts.filterMap callOf =
      acts.filterMap callOf ++ (Http.sendHttpStatus statusCode body none ++ Http.killHttpConnection request).filter isAct := by
  have hkill := acts_kill env request filePath
  have hanswer : (answer (outcomesOf env request filePath) acts false []).acts =
      acts ++ (sendHttpStatus (outcomesOf env request filePath) false).acts ++
        killHttpConnection (outcomesOf env request filePath) ++ [] := rfl
  have hsent : (sendHttpStatus (outcomesOf env request filePath) false).acts.filterMap callOf =
      (Http.sendHttpStatus statusCode body none).filter isAct := rfl
  rw [hanswer]
  simp only [List.filterMap_append, List.filter_append, hkill, hsent, List.append_assoc, List.append_nil]

theorem acts_serveFile (env : Env) (request : HttpRequest) (filePath : Bytes) :
    (serveFile (outcomesOf env request filePath)).acts.filterMap callOf =
      (Http.serveFile env request filePath).calls.filter isAct := by
  have hkill := acts_kill env request filePath
  have hsize := acts_getFileSize env request filePath
  obtain ⟨hmime, htype⟩ := acts_getMimeType env request filePath
  unfold serveFile Http.serveFile
  have hfopen : (outcomesOf env request filePath).fopen = env.fopen := rfl
  have hmemalloc : (outcomesOf env request filePath).memalloc = env.memalloc := rfl
  rw [hfopen, hmemalloc]
  generalize Http.getFileSize env filePath = fileSize at hsize ⊢
  generalize Http.getMimeType env filePath = mime at hmime htype ⊢
  obtain ⟨sizeCalls, size⟩ := fileSize
  obtain ⟨mimeCalls, mimeType⟩ := mime
  have hopened : (.acquire .file :: getFileSize (outcomesOf env request filePath)).filterMap callOf =
      (.fopen filePath :: .acquire .file :: sizeCalls).filter isAct :=
    congrArg (Call.acquire .file :: ·) hsize
  cases env.fopen with
  | false => exact hkill
  | true =>
    cases env.memalloc with
    | false =>
      show ((Act.acquire Token.file :: getFileSize (outcomesOf env request filePath)) ++ [Act.release Token.file] ++
        killHttpConnection (outcomesOf env request filePath)).filterMap callOf =
          ((Call.fopen filePath :: .acquire .file :: sizeCalls) ++
            ([Call.release .file] ++ Http.killHttpConnection request)).filter isAct
      simp only [List.filterMap_append, List.filter_append, hopened, hkill, List.append_assoc]
      rfl
    | true =>
      refine (acts_answer env request filePath
        (.acquire .file :: getFileSize (outcomesOf env request filePath) ++ [.acquire .fileContent, .release .file] ++
          (getMimeType (outcomesOf env request filePath)).1)
        [.release .fileContent, .release (if (getMimeType (outcomesOf env request filePath)).2 then .mimeType else .literal)]
        (readFile env size) (mimeType.getD (bytes "application/octet-stream")) (dec size)).trans ?_
      rw [List.filterMap_append, List.filterMap_append, hopened, hmime, htype]
      cases mimeType <;> simp [callOf, Token.resource, isAct, List.filter_cons]

theorem acts_serveDirectory (env : Env) (request : HttpRequest) (filePath : Bytes) :
    (serveDirectory (outcomesOf env request filePath)).acts.filterMap callOf =
      (Http.serveDirectory env request filePath).calls.filter isAct := by
  unfold serveDirectory Http.serveDirectory
  cases hentries : env.entries with
  | none =>
    have hread : getDirectoryEntries (outcomesOf env request filePath) = ([], none) := by
      simp [getDirectoryEntries, outcomesOf, hentries]
    rw [hread]
    exact acts_answer_bare env request filePath [] 500 (bytes "Internal Server Error\n")
  | some entries =>
    have hread : getDirectoryEntries (outcomesOf env request filePath) =
        ([.acquire .directory] ++ (if entries.isSome then [.acquire .listing] else []) ++ [.release .directory],
          some entries.isSome) := by
      cases entries <;> simp [getDirectoryEntries, outcomesOf, hentries, readEntries]
    rw [hread]
    have hanswer (acts : Acts) := acts_answer env request filePath acts [.release .listing]
      (entries.getD (bytes "No files or directories found.\n")) (bytes "text/html")
      (decInt (entries.getD (bytes "No files or directories found.\n")).length)
    cases entries with
    | none =>
      refine (hanswer _).trans ?_
      simp [callOf, Token.resource, isAct, List.filter_cons, List.filterMap_cons]
    | some text =>
      refine (hanswer _).trans ?_
      simp [callOf, Token.resource, isAct, List.filter_cons, List.filterMap_cons]

/-- The acts are those of the calls that the callback's model makes behind its
checks, where the response and its headers have their memory. -/
theorem acts_servePublic (env : Env) (request : HttpRequest) (filePath : Bytes) :
    (servePublic (outcomesOf env request filePath)).acts.filterMap callOf =
      (Http.servePublic env request filePath).calls.filter isAct := by
  have hfile := acts_serveFile env request filePath
  have hdirectory := acts_serveDirectory env request filePath
  have hisFile : (outcomesOf env request filePath).isFile = env.isFile filePath := rfl
  have hindexing : (outcomesOf env request filePath).directoryIndexing = env.config.directoryIndexing := rfl
  have hisDirectory : (outcomesOf env request filePath).isDirectory = env.isDirectory filePath := rfl
  unfold servePublic Http.servePublic
  rw [hisFile, hindexing, hisDirectory]
  cases env.isFile filePath with
  | true => exact hfile
  | false =>
    cases env.config.directoryIndexing with
    | false => exact acts_answer_bare env request filePath [] 403 (bytes "Forbidden\n")
    | true =>
      cases env.isDirectory filePath with
      | true => exact hdirectory
      | false => exact acts_answer_bare env request filePath [] 404 (bytes "Not found\n")

def unidentified : Outcomes where
  requestHeaders := false
  requestBody := false
  isFile := true
  directoryIndexing := false
  isDirectory := false
  fopen := true
  sizeFopen := true
  memalloc := true
  magicOpen := true
  magicLoad := true
  magicFile := false
  strdupMimeType := true
  contentType := ⟨true, true⟩
  contentLength := ⟨true, true⟩
  connection := ⟨true, true⟩
  response := true
  responseBuffer := true
  opendir := true
  entries := 0
  realloc _ := true
  strdupBody := true

/-- All else succeeds, and the literal is freed. -/
theorem unidentified_not_releasesAll : (servePublic unidentified).returns ∧
    (Act.release Token.literal) ∈ (servePublic unidentified).acts ∧ ¬ ReleasesAll unidentified := by
  have hheld : held (acquireRequest unidentified ++ (servePublic unidentified).acts) = none := by decide
  exact ⟨rfl, by decide, fun h => nomatch hheld.symm.trans h.released⟩

end GeoNS.Http.Releases
