import GeoNS.LexicalPath
import GeoNS.Http.Server

/-!
# Files below the public directory

The URI is appended to the public directory as it is, and what the file system
has at the resulting path is served. Where that is, is decided by the URI's
steps to the parent.
-/

namespace GeoNS.Http.Containment

open CString LexicalPath

/-- Repeated slashes and `.` lead nowhere. -/
def components (path : Bytes) : List (Component Bytes) :=
  ((strtok 47 path).filter (· ≠ bytes ".")).map fun s =>
    if s = bytes ".." then .parent else .name s

def placeOf (path : Bytes) : Place Bytes :=
  Place.resolve ⟨path.head? == some 47, 0, []⟩ (components path)

theorem components_join (a b : Bytes) :
    components (a ++ bytes "/" ++ b) = components a ++ components b := by
  have hjoin : a ++ bytes "/" ++ b = a ++ 47 :: b := by simp [bytes]
  rw [components, hjoin, strtok_append_delim, List.filter_append, List.map_append]
  rfl

theorem placeOf_join (h : a ≠ []) (b : Bytes) :
    placeOf (a ++ bytes "/" ++ b) = (placeOf a).resolve (components b) := by
  obtain ⟨c, cs, rfl⟩ := List.exists_cons_of_ne_nil h
  rw [placeOf, components_join, Place.resolve_append]
  rfl

-- ---------------------------------------------------------------------------
-- What a run does with paths
-- ---------------------------------------------------------------------------

def statusOf : Call → Option Nat
  | .send response => some response.statusCode
  | _ => none

def openedBy : Call → Option Bytes
  | .fopen path | .magicFile path | .opendir path => some path
  | _ => none

def pathOf : Call → Option Bytes
  | .stat path => some path
  | call => openedBy call

/-- What is served is below the public directory, and a URI that leads out of
it is answered with an error and opens nothing. -/
structure Contained (publicDir uri : Bytes) (run : Run) : Prop where
  served : 200 ∈ run.calls.filterMap statusOf → ∀ path ∈ run.calls.filterMap pathOf,
    Below (placeOf publicDir) (placeOf path)
  outside : ¬ Below (placeOf publicDir) (placeOf (publicDir ++ bytes "/" ++ uri)) →
    (∃ status ∈ run.calls.filterMap statusOf, 400 ≤ status) ∧ run.calls.filterMap openedBy = []

def Opens (env : Env) (path : Bytes) : Prop :=
  env.isFile path ∨ env.config.directoryIndexing ∧ env.isDirectory path

def Serves (env : Env) (path : Bytes) : Prop :=
  if env.isFile path then env.fopen ∧ env.memalloc
  else env.config.directoryIndexing ∧ env.isDirectory path ∧ env.entries.isSome

/-- The URI leaves no directory of the public one, or enters each one it leaves
again. -/
def Stays (publicDir uri : Bytes) : Prop :=
  let dir := placeOf publicDir
  let uri := effect (components uri)
  publicDir ≠ [] ∧ (dir.rooted ∨ uri.up ≤ dir.names.length) ∧
    dir.names.drop (dir.names.length - uri.up) <+: uri.names

/-- The same for what is left of the URI when the path is cut to its array. -/
def StaysCut (publicDir uri : Bytes) : Prop :=
  if publicDir.length < maxSysPathLength then
    Stays publicDir (uri.take (maxSysPathLength - 2 - publicDir.length))
  else Below (placeOf publicDir) (placeOf (publicDir.take (maxSysPathLength - 1)))

theorem below_join_iff (publicDir uri : Bytes) :
    Below (placeOf publicDir) (placeOf (publicDir ++ bytes "/" ++ uri)) ↔ Stays publicDir uri := by
  by_cases hnil : publicDir = []
  case pos =>
    refine iff_of_false ?_ fun h => h.1 hnil
    rintro ⟨hrooted, -⟩
    rw [hnil, placeOf, placeOf, Place.resolve_eq, Place.resolve_eq] at hrooted
    contradiction
  case neg =>
    rw [placeOf_join hnil, below_resolve_iff, Stays]
    exact (and_iff_right hnil).symm

theorem stays_nil (h : publicDir ≠ []) : Stays publicDir [] := by
  rw [← below_join_iff, placeOf_join h]
  exact Below.refl _

theorem below_filePath_iff (publicDir uri : Bytes) :
    Below (placeOf publicDir)
        (placeOf (snprintf maxSysPathLength (publicDir ++ bytes "/" ++ uri))) ↔
      StaysCut publicDir uri := by
  have hmax : maxSysPathLength = 1024 := rfl
  unfold StaysCut snprintf
  split
  case isTrue hshort =>
    rcases Nat.lt_or_ge (maxSysPathLength - 2) publicDir.length with hfull | hroom
    · have hlength : publicDir.length = maxSysPathLength - 1 := by omega
      have hne : publicDir ≠ [] := by
        rintro rfl
        contradiction
      have hcut : maxSysPathLength - 2 - publicDir.length = 0 := by omega
      rw [hcut, List.take_zero, List.append_assoc, ← hlength, List.take_left']
      · exact iff_of_true (Below.refl _) (stays_nil hne)
      · rfl
    · rw [← below_join_iff]
      have htake : (publicDir ++ bytes "/" ++ uri).take (maxSysPathLength - 1) =
          publicDir ++ bytes "/" ++ uri.take (maxSysPathLength - 2 - publicDir.length) := by
        have hone : (publicDir ++ bytes "/").length = publicDir.length + 1 := by simp [bytes]
        have hle : (publicDir ++ bytes "/").length ≤ maxSysPathLength - 1 := by omega
        rw [List.take_append, List.take_of_length_le hle, hone]
        congr 2
        omega
      rw [htake]
  case isFalse hlong =>
    rw [List.append_assoc, List.take_append_of_le_length (by omega)]

-- ---------------------------------------------------------------------------
-- The branch of the public directory
-- ---------------------------------------------------------------------------

/-- The statuses that calls answer with, and whether they open the path; they
touch no other one. -/
structure Does (filePath : Bytes) (calls : List Call) (statuses : List Nat) (opens : Bool) : Prop where
  statuses : calls.filterMap statusOf = statuses
  paths : ∀ path ∈ calls.filterMap pathOf, path = filePath
  opens : calls.filterMap openedBy = [] ↔ opens = false

theorem Does.append {statuses statuses' : List Nat} {opens opens' : Bool}
    (h : Does filePath calls statuses opens) (h' : Does filePath calls' statuses' opens') :
    Does filePath (calls ++ calls') (statuses ++ statuses') (opens || opens') where
  statuses := by rw [List.filterMap_append, h.statuses, h'.statuses]
  paths path hpath := by
    rw [List.filterMap_append, List.mem_append] at hpath
    exact hpath.elim (h.paths path) (h'.paths path)
  opens := by
    rw [List.filterMap_append, List.append_eq_nil_iff, h.opens, h'.opens, Bool.or_eq_false_iff]

theorem does_sendHttpStatus (filePath : Bytes) (statusCode : Nat) (body : Bytes)
    (headers : Option Bytes) : Does filePath (sendHttpStatus statusCode body headers) [statusCode] false := by
  unfold sendHttpStatus
  split <;> exact ⟨rfl, by simp [pathOf, openedBy], by simp [openedBy]⟩

theorem does_killHttpConnection (filePath : Bytes) (request : HttpRequest) :
    Does filePath (killHttpConnection request) [] false := by
  unfold killHttpConnection
  split <;> exact ⟨rfl, by simp [pathOf, openedBy], by simp [openedBy]⟩

theorem does_sendError (filePath : Bytes) (request : HttpRequest) (statusCode : Nat) (body : Bytes) :
    Does filePath (sendError request statusCode body) [statusCode] false :=
  (does_sendHttpStatus filePath statusCode body none).append (does_killHttpConnection filePath request)

theorem does_stat (filePath : Bytes) : Does filePath [.stat filePath] [] false :=
  ⟨rfl, by simp [pathOf], by simp [openedBy]⟩

theorem does_fopen (filePath : Bytes) : Does filePath [.fopen filePath] [] true :=
  ⟨rfl, by simp [pathOf, openedBy], by simp [openedBy]⟩

theorem does_opendir (filePath : Bytes) : Does filePath [.opendir filePath] [] true :=
  ⟨rfl, by simp [pathOf, openedBy], by simp [openedBy]⟩

theorem does_acquire (filePath : Bytes) (r : Resource) : Does filePath [.acquire r] [] false :=
  ⟨rfl, by simp [pathOf, openedBy], by simp [openedBy]⟩

theorem does_release (filePath : Bytes) (r : Resource) : Does filePath [.release r] [] false :=
  ⟨rfl, by simp [pathOf, openedBy], by simp [openedBy]⟩

theorem does_getFileSize (env : Env) (filePath : Bytes) :
    Does filePath (getFileSize env filePath).1 [] true := by
  unfold getFileSize
  split <;> exact ⟨rfl, by simp [pathOf, openedBy], by simp [openedBy]⟩

theorem does_getMimeType (env : Env) (filePath : Bytes) :
    ∃ opens, Does filePath (getMimeType env filePath).1 [] opens := by
  unfold getMimeType
  split
  · exact ⟨false, rfl, by simp, by simp⟩
  split
  · exact ⟨false, rfl, by simp [pathOf, openedBy], by simp [openedBy]⟩
  split <;> exact ⟨true, rfl, by simp [pathOf, openedBy], by simp [openedBy]⟩

theorem does_serveFile (env : Env) (request : HttpRequest) (filePath : Bytes) :
    Does filePath (serveFile env request filePath).calls
      (if env.fopen && env.memalloc then [200] else []) true := by
  have hkill := does_killHttpConnection filePath request
  have hopened := ((does_fopen filePath).append (does_acquire filePath .file)).append
    (does_getFileSize env filePath)
  obtain ⟨opens, hmime⟩ := does_getMimeType env filePath
  unfold serveFile
  split
  case isTrue hfopen =>
    have hfailed : env.fopen = false := by simpa using hfopen
    simpa [hfailed] using (does_fopen filePath).append hkill
  case isFalse hfopen =>
    have hok : env.fopen = true := by simpa using hfopen
    dsimp only
    split
    case isTrue hmemalloc =>
      have hfailed : env.memalloc = false := by simpa using hmemalloc
      simpa [hfailed] using (hopened.append (does_release filePath .file)).append hkill
    case isFalse hmemalloc =>
      have hroom : env.memalloc = true := by simpa using hmemalloc
      have hread := (hopened.append (does_acquire filePath .fileContent)).append
        (does_release filePath .file)
      have hsent (body : Bytes) (headers : Option Bytes) :=
        (((hread.append hmime).append (does_acquire filePath .responseHeaders)).append
          (does_sendHttpStatus filePath 200 body headers)).append
          (hkill.append (does_release filePath .fileContent))
      split
      · simpa [hok, hroom] using (hsent _ _).append (does_release filePath .mimeType)
      · simpa [hok, hroom] using hsent _ _

theorem does_serveDirectory (env : Env) (request : HttpRequest) (filePath : Bytes) :
    Does filePath (serveDirectory env request filePath).calls
      [if env.entries.isSome then 200 else 500] true := by
  have hkill := does_killHttpConnection filePath request
  unfold serveDirectory
  split
  case h_1 hnone =>
    simpa [hnone] using
      ((does_opendir filePath).append (does_sendHttpStatus filePath 500 _ none)).append hkill
  case h_2 entries hsome =>
    have hlisted := ((does_opendir filePath).append (does_acquire filePath .entries)).append
      (does_acquire filePath .responseHeaders)
    simpa [hsome] using ((hlisted.append (does_sendHttpStatus filePath 200 _ _)).append hkill).append
      (does_release filePath .entries)

def publicStatuses (env : Env) (filePath : Bytes) : List Nat :=
  if env.isFile filePath then if env.fopen && env.memalloc then [200] else []
  else if env.config.directoryIndexing && env.isDirectory filePath then
    [if env.entries.isSome then 200 else 500]
  else [if env.config.directoryIndexing then 404 else 403]

theorem does_servePublic (env : Env) (request : HttpRequest) (filePath : Bytes) :
    Does filePath (servePublic env request filePath).calls (publicStatuses env filePath)
      (env.isFile filePath || env.config.directoryIndexing && env.isDirectory filePath) := by
  have hstat := does_stat filePath
  unfold servePublic publicStatuses
  split
  case isTrue hfile => simpa [hfile] using hstat.append (does_serveFile env request filePath)
  case isFalse hfile =>
    have hnofile : env.isFile filePath = false := by simpa using hfile
    split
    case isTrue hindexing =>
      split
      case isTrue hdir =>
        simpa [hnofile, hindexing, hdir] using
          (hstat.append hstat).append (does_serveDirectory env request filePath)
      case isFalse hdir =>
        simpa [hnofile, hindexing, hdir] using
          (hstat.append hstat).append (does_sendError filePath request 404 _)
    case isFalse hindexing =>
      simpa [hnofile, hindexing] using hstat.append (does_sendError filePath request 403 _)

theorem stat_mem_servePublic (env : Env) (request : HttpRequest) (filePath : Bytes) :
    filePath ∈ (servePublic env request filePath).calls.filterMap pathOf := by
  refine List.mem_filterMap.mpr ⟨.stat filePath, ?_, rfl⟩
  unfold servePublic
  split
  · simp
  split
  · split <;> simp
  · simp

theorem serves_iff (env : Env) (filePath : Bytes) :
    200 ∈ publicStatuses env filePath ↔ Serves env filePath := by
  unfold publicStatuses Serves
  cases env.isFile filePath <;> cases env.config.directoryIndexing <;>
    cases env.isDirectory filePath <;> cases env.entries <;> cases env.fopen <;>
    cases env.memalloc <;> simp

theorem not_opens_iff (env : Env) (filePath : Bytes) :
    (env.isFile filePath || env.config.directoryIndexing && env.isDirectory filePath) = false ↔
      ¬ Opens env filePath := by
  simp [Opens]

theorem error_of_not_opens (h : ¬ Opens env filePath) :
    ∃ status ∈ publicStatuses env filePath, 400 ≤ status := by
  obtain ⟨hfile, hdir⟩ := not_or.mp h
  have hdir : ¬ (env.config.directoryIndexing && env.isDirectory filePath) := by simpa using hdir
  rw [publicStatuses, if_neg hfile, if_neg hdir]
  refine ⟨_, List.mem_singleton_self _, ?_⟩
  split <;> omega

-- ---------------------------------------------------------------------------
-- The callback
-- ---------------------------------------------------------------------------

theorem does_parse (filePath : Bytes) (h : (parseHttpRequest env text n).request = some request) :
    Does filePath (parseHttpRequest env text n).calls [] false := by
  obtain ⟨calls, heq, hcalls⟩ := parseHttpRequest_calls h
  have hreceive (call : Call) (hcall : call ∈ calls) :
      statusOf call = none ∧ pathOf call = none ∧ openedBy call = none := by
    refine Call.forall_isReceive (P := fun call =>
      statusOf call = none ∧ pathOf call = none ∧ openedBy call = none) ?_ ?_ call (hcalls call hcall)
    · exact fun _ => ⟨rfl, rfl, rfl⟩
    · exact fun _ => ⟨rfl, rfl, rfl⟩
  have hnone : Does filePath calls [] false := by
    refine ⟨?_, fun path hpath => ?_, iff_of_true ?_ rfl⟩
    · exact List.filterMap_eq_nil_iff.mpr fun call hcall => (hreceive call hcall).1
    · obtain ⟨call, hcall, hpath⟩ := List.mem_filterMap.mp hpath
      rw [(hreceive call hcall).2.1] at hpath
      contradiction
    · exact List.filterMap_eq_nil_iff.mpr fun call hcall => (hreceive call hcall).2.2
  rw [heq]
  exact ((does_acquire filePath .request).append (does_acquire filePath .requestHeaders)).append hnone

/-- The run of a request without a route is contained exactly if its URI stays
in the public directory, or finds nothing there. -/
theorem contained_iff (hparsed : (parseHttpRequest env text n).request = some request)
    (hchecked : checkRequest env.config request = .ok checked)
    (hroute : isRouteExists server.httpRoutes checked.uriText createStringMap = some (none, params)) :
    Contained server.publicDir checked.uriText (httpServerCallback env server text n) ↔
      (Opens env (server.filePath checked) → Stays server.publicDir checked.uriText) ∧
        (Serves env (server.filePath checked) → StaysCut server.publicDir checked.uriText) := by
  have hrun : (httpServerCallback env server text n).calls =
      (parseHttpRequest env text n).calls ++ ([.acquire .parameterMap, .release .parameterMap] ++
        (servePublic env checked (server.filePath checked)).calls) := by
    simp only [httpServerCallback, hparsed, hchecked, serveRequest, hroute, Run.after_calls]
  have hbelow := below_filePath_iff server.publicDir checked.uriText
  change Below _ (placeOf (server.filePath checked)) ↔ _ at hbelow
  generalize server.filePath checked = filePath at hrun hbelow ⊢
  have hdoes : Does filePath (httpServerCallback env server text n).calls
      (publicStatuses env filePath)
      (env.isFile filePath || env.config.directoryIndexing && env.isDirectory filePath) := by
    rw [hrun]
    exact (does_parse filePath hparsed).append (((does_acquire filePath .parameterMap).append
      (does_release filePath .parameterMap)).append (does_servePublic env checked filePath))
  have hstat : filePath ∈ (httpServerCallback env server text n).calls.filterMap pathOf := by
    rw [hrun, List.filterMap_append, List.filterMap_append]
    exact List.mem_append_right _ (List.mem_append_right _ (stat_mem_servePublic env checked filePath))
  constructor
  · rintro ⟨hserved, houtside⟩
    refine ⟨fun hopens => ?_, fun hserves => ?_⟩
    · rw [← below_join_iff]
      by_contra hout
      have hnone := hdoes.opens.mp (houtside hout).2
      exact (not_opens_iff env filePath).mp hnone hopens
    · refine hbelow.mp (hserved ?_ filePath hstat)
      rwa [hdoes.statuses, serves_iff]
  · rintro ⟨hopens, hserves⟩
    constructor
    · intro hok path hpath
      rw [hdoes.statuses, serves_iff] at hok
      rw [hdoes.paths path hpath]
      exact hbelow.mpr (hserves hok)
    · intro hout
      have hnot : ¬ Opens env filePath := fun h => hout ((below_join_iff _ _).mpr (hopens h))
      rw [hdoes.statuses]
      exact ⟨error_of_not_opens hnot, hdoes.opens.mpr ((not_opens_iff env filePath).mpr hnot)⟩

-- ---------------------------------------------------------------------------
-- A file beside the public directory
-- ---------------------------------------------------------------------------

instance (publicDir uri : Bytes) : Decidable (Stays publicDir uri) :=
  inferInstanceAs (Decidable (_ ∧ _ ∧ _))

instance (publicDir uri : Bytes) : Decidable (StaysCut publicDir uri) :=
  inferInstanceAs (Decidable (if publicDir.length < maxSysPathLength then _ else Below _ _))

def webServer : HttpServer := ⟨bytes "/srv/web", []⟩

def indexRequest : Bytes := bytes "GET /index.html HTTP/1.1\r\n\r\n"

def parentRequest : Bytes := bytes "GET /../secret HTTP/1.1\r\n\r\n"

theorem contained_indexRequest :
    ∃ request checked params, (parseHttpRequest .ok indexRequest 28).request = some request ∧
      checkRequest Env.ok.config request = .ok checked ∧
      isRouteExists webServer.httpRoutes checked.uriText createStringMap = some (none, params) ∧
      Contained webServer.publicDir checked.uriText
        (httpServerCallback .ok webServer indexRequest 28) := by
  refine ⟨_, _, _, rfl, rfl, rfl, ?_⟩
  exact (contained_iff rfl rfl rfl).mpr ⟨fun _ => by decide +kernel, fun _ => by decide +kernel⟩

theorem not_contained_parentRequest :
    .fopen (bytes "/srv/web//../secret") ∈
        (httpServerCallback .ok webServer parentRequest 27).calls ∧
      ¬ Below (placeOf (bytes "/srv/web")) (placeOf (bytes "/srv/web//../secret")) ∧
      ¬ Contained webServer.publicDir (bytes "/../secret")
        (httpServerCallback .ok webServer parentRequest 27) := by
  have hopened : .fopen (bytes "/srv/web//../secret") ∈
      (httpServerCallback .ok webServer parentRequest 27).calls := by decide +kernel
  have hout : ¬ Below (placeOf (bytes "/srv/web")) (placeOf (bytes "/srv/web//../secret")) := by
    decide +kernel
  have hserved : 200 ∈ (httpServerCallback .ok webServer parentRequest 27).calls.filterMap statusOf := by
    decide +kernel
  exact ⟨hopened, hout, fun h =>
    hout (h.served hserved _ (List.mem_filterMap.mpr ⟨_, hopened, rfl⟩))⟩

end GeoNS.Http.Containment
