import GeoNS.Http.Server

/-!
# One answer and one release for each request

Every exit of the callback sends its own response and releases the request
itself. The exits are counted through; two ways do not reach one, a URI with
more segments than their array has places and a file that libmagic does not
identify.
-/

namespace GeoNS.Http

open CString

def Call.isSend : Call → Bool
  | .send _ => true
  | _ => false

def sends (calls : List Call) : Nat := calls.countP Call.isSend

def statusCodes (calls : List Call) : List Nat :=
  calls.filterMap fun
    | .send response => some response.statusCode
    | _ => none

def releases (calls : List Call) : Nat := calls.count (.release .request)

/-- A callback that sends one response and kills the connection once. -/
def AnswersOnce (callback : HttpCallback) : Prop :=
  ∀ request params, sends (callback request params) = 1 ∧ releases (callback request params) = 1

/-- Only a file that was not opened, or whose content has no room, goes without
a response. -/
structure OneAnswer (env : Env) (run : Run) : Prop where
  released : releases run.calls = 1
  atMostOne : sends run.calls ≤ 1
  answered : sends run.calls = 1 ∨
    (∃ path, .fopen path ∈ run.calls) ∧ ¬ (env.fopen = true ∧ env.memalloc = true)
  returned : run.result = .ret 0 ∨ run.result = .ret (-1)

/-- What the checked request needs: room for its segments, and the file's MIME
type where a file is sent. -/
structure Answerable (env : Env) (server : HttpServer) (request : HttpRequest) : Prop where
  room : (strtok 47 request.uriText).length ≤ maxRequestSegments
  mime : (∃ params, isRouteExists server.httpRoutes request.uriText createStringMap =
      some (none, params)) →
    env.isFile (server.filePath request) → env.fopen → env.memalloc →
      env.magicOpen ∧ env.magicLoad ∧ env.magicFile.isSome

-- ---------------------------------------------------------------------------
-- Counting
-- ---------------------------------------------------------------------------

@[simp] theorem sends_nil : sends [] = 0 := rfl

@[simp] theorem sends_cons (call : Call) (calls : List Call) :
    sends (call :: calls) = sends calls + if call.isSend then 1 else 0 := List.countP_cons

@[simp] theorem sends_append (calls calls' : List Call) :
    sends (calls ++ calls') = sends calls + sends calls' := List.countP_append

@[simp] theorem releases_nil : releases [] = 0 := rfl

@[simp] theorem releases_cons (call : Call) (calls : List Call) :
    releases (call :: calls) = releases calls + if call == .release .request then 1 else 0 :=
  List.count_cons

@[simp] theorem releases_append (calls calls' : List Call) :
    releases (calls ++ calls') = releases calls + releases calls' := List.count_append

@[simp] theorem sends_sendHttpStatus (statusCode : Nat) (body : Bytes) (headers : Option Bytes) :
    sends (sendHttpStatus statusCode body headers) = 1 := by
  unfold sendHttpStatus
  split <;> rfl

@[simp] theorem releases_sendHttpStatus (statusCode : Nat) (body : Bytes) (headers : Option Bytes) :
    releases (sendHttpStatus statusCode body headers) = 0 := by
  unfold sendHttpStatus
  split <;> rfl

@[simp] theorem sends_killHttpConnection (request : HttpRequest) :
    sends (killHttpConnection request) = 0 := by
  unfold killHttpConnection
  split <;> rfl

@[simp] theorem releases_killHttpConnection (request : HttpRequest) :
    releases (killHttpConnection request) = 1 := by
  unfold killHttpConnection
  split <;> rfl

@[simp] theorem statusCodes_append (calls calls' : List Call) :
    statusCodes (calls ++ calls') = statusCodes calls ++ statusCodes calls' := List.filterMap_append

theorem statusCodes_cons_of_not (h : call.isSend = false) (calls : List Call) :
    statusCodes (call :: calls) = statusCodes calls := by
  cases call <;> first | rfl | contradiction

@[simp] theorem statusCodes_sendHttpStatus (statusCode : Nat) (body : Bytes) (headers : Option Bytes) :
    statusCodes (sendHttpStatus statusCode body headers) = [statusCode] := by
  unfold sendHttpStatus
  split <;> rfl

@[simp] theorem statusCodes_killHttpConnection (request : HttpRequest) :
    statusCodes (killHttpConnection request) = [] := by
  unfold killHttpConnection
  split <;> rfl

@[simp] theorem statusCodes_rejectRequest (request : HttpRequest) (statusCode : Nat) :
    statusCodes (rejectRequest request statusCode) = [statusCode] := by
  simp [rejectRequest, sendHttpStatusBodyless]

@[simp] theorem sends_sendError (request : HttpRequest) (statusCode : Nat) (body : Bytes) :
    sends (sendError request statusCode body) = 1 := by simp [sendError]

@[simp] theorem releases_sendError (request : HttpRequest) (statusCode : Nat) (body : Bytes) :
    releases (sendError request statusCode body) = 1 := by simp [sendError]

@[simp] theorem sends_rejectRequest (request : HttpRequest) (statusCode : Nat) :
    sends (rejectRequest request statusCode) = 1 := by
  simp [rejectRequest, sendHttpStatusBodyless]

@[simp] theorem releases_rejectRequest (request : HttpRequest) (statusCode : Nat) :
    releases (rejectRequest request statusCode) = 1 := by
  simp [rejectRequest, sendHttpStatusBodyless]

def Call.isQuiet : Call → Bool
  | .send _ | .release .request | .fopen _ => false
  | _ => true

theorem sends_quiet (h : ∀ call ∈ calls, Call.isQuiet call) : sends calls = 0 := by
  refine List.countP_eq_zero.mpr fun call hcall => ?_
  have hquiet := h call hcall
  cases call <;> simp [Call.isSend, Call.isQuiet] at hquiet ⊢

theorem releases_quiet (h : ∀ call ∈ calls, Call.isQuiet call) : releases calls = 0 :=
  List.count_eq_zero.mpr fun hmem => Bool.false_ne_true (h _ hmem)

theorem isQuiet_of_isReceive {call : Call} (h : call.isReceive) : call.isQuiet :=
  Call.forall_isReceive (P := (·.isQuiet)) (fun _ => rfl) (fun _ => rfl) call h

theorem answersOnce_sendPage (body : Bytes) (request : HttpRequest) :
    sends (sendPage body request) = 1 ∧ releases (sendPage body request) = 1 := by
  simp [sendPage, Call.isSend]

theorem answersOnce_callbackHome : AnswersOnce callbackHome := fun request _ =>
  answersOnce_sendPage _ request

theorem answersOnce_callbackAbout : AnswersOnce callbackAbout := fun request _ =>
  answersOnce_sendPage _ request

theorem answersOnce_test : AnswersOnce test := fun request params => by
  obtain ⟨hsends, hreleases⟩ := answersOnce_callbackAbout request params
  unfold test
  split <;> simp [Call.isSend, hsends, hreleases]

-- ---------------------------------------------------------------------------
-- The exits
-- ---------------------------------------------------------------------------

theorem oneAnswer_of_sent (hsends : sends run.calls = 1) (hreleases : releases run.calls = 1)
    (hresult : run.result = .ret 0 ∨ run.result = .ret (-1)) : OneAnswer env run :=
  ⟨hreleases, hsends.le, .inl hsends, hresult⟩

theorem oneAnswer_after_iff (h : ∀ call ∈ calls, Call.isQuiet call) (env : Env) (run : Run) :
    OneAnswer env (run.after calls) ↔ OneAnswer env run := by
  have hsends : sends (run.after calls).calls = sends run.calls := by simp [sends_quiet h]
  have hreleases : releases (run.after calls).calls = releases run.calls := by
    simp [releases_quiet h]
  have hopened (path : Bytes) : .fopen path ∈ (run.after calls).calls ↔ .fopen path ∈ run.calls := by
    rw [Run.after_calls, List.mem_append]
    exact or_iff_right fun hmem => Bool.false_ne_true (h _ hmem)
  constructor
  · rintro ⟨hreleased, hmost, hanswered, hreturned⟩
    simp only [hsends, hreleases, hopened] at hreleased hmost hanswered
    exact ⟨hreleased, hmost, hanswered, hreturned⟩
  · rintro ⟨hreleased, hmost, hanswered, hreturned⟩
    refine ⟨?_, ?_, ?_, hreturned⟩ <;> simpa only [hsends, hreleases, hopened]

theorem not_oneAnswer_fault (h : run.result = .fault) : ¬ OneAnswer env run := fun hone => by
  rcases hone.returned with hret | hret <;> rw [h] at hret <;> contradiction

theorem count_getMimeType (env : Env) (filePath : Bytes) :
    sends (getMimeType env filePath).1 = 0 ∧ releases (getMimeType env filePath).1 = 0 := by
  unfold getMimeType
  split
  · exact ⟨rfl, rfl⟩
  split
  · exact ⟨rfl, rfl⟩
  split <;> exact ⟨rfl, rfl⟩

theorem getMimeType_isSome (env : Env) (filePath : Bytes) :
    (getMimeType env filePath).2.isSome ↔
      env.magicOpen ∧ env.magicLoad ∧ env.magicFile.isSome := by
  unfold getMimeType
  cases env.magicOpen <;> cases env.magicLoad <;> cases env.magicFile <;> simp

theorem count_getFileSize (env : Env) (filePath : Bytes) :
    sends (getFileSize env filePath).1 = 0 ∧ releases (getFileSize env filePath).1 = 0 := by
  unfold getFileSize
  split <;> exact ⟨rfl, rfl⟩

theorem serveFile_oneAnswer_iff (env : Env) (request : HttpRequest) (filePath : Bytes) :
    OneAnswer env (serveFile env request filePath) ↔
      (env.fopen → env.memalloc → env.magicOpen ∧ env.magicLoad ∧ env.magicFile.isSome) := by
  obtain ⟨hmimeSends, hmimeReleases⟩ := count_getMimeType env filePath
  obtain ⟨hsizeSends, hsizeReleases⟩ := count_getFileSize env filePath
  rw [← getMimeType_isSome env filePath]
  unfold serveFile
  split
  case isTrue hfopen =>
    have hfailed : env.fopen = false := by simpa using hfopen
    refine iff_of_true ⟨by simp, by simp [Call.isSend], .inr ⟨⟨filePath, by simp⟩, by simp [hfailed]⟩,
      .inr rfl⟩ (by simp [hfailed])
  case isFalse hfopen =>
    have hopened : env.fopen = true := by simpa using hfopen
    dsimp only
    split
    case isTrue hmemalloc =>
      have hfailed : env.memalloc = false := by simpa using hmemalloc
      refine iff_of_true ⟨by simp [hsizeReleases], by simp [Call.isSend, hsizeSends],
        .inr ⟨⟨filePath, by simp⟩, by simp [hfailed]⟩, .inr rfl⟩ (by simp [hfailed])
    case isFalse hmemalloc =>
      have hroom : env.memalloc = true := by simpa using hmemalloc
      split
      case isTrue hmime =>
        refine iff_of_true (oneAnswer_of_sent ?_ ?_ (.inl rfl)) fun _ _ => hmime
        · simp [Call.isSend, hsizeSends, hmimeSends]
        · simp [hsizeReleases, hmimeReleases]
      case isFalse hmime =>
        exact iff_of_false (not_oneAnswer_fault rfl) fun h => hmime (h hopened hroom)

theorem serveDirectory_oneAnswer (env : Env) (request : HttpRequest) (filePath : Bytes) :
    OneAnswer env (serveDirectory env request filePath) := by
  unfold serveDirectory
  split
  · exact oneAnswer_of_sent (by simp [Call.isSend]) (by simp) (.inr rfl)
  · exact oneAnswer_of_sent (by simp [Call.isSend]) (by simp) (.inl rfl)

theorem servePublic_oneAnswer_iff (env : Env) (request : HttpRequest) (filePath : Bytes) :
    OneAnswer env (servePublic env request filePath) ↔
      (env.isFile filePath → env.fopen → env.memalloc →
        env.magicOpen ∧ env.magicLoad ∧ env.magicFile.isSome) := by
  unfold servePublic
  split
  case isTrue hfile =>
    rw [forall_prop_of_true hfile, ← serveFile_oneAnswer_iff env request filePath]
    exact oneAnswer_after_iff (by simp [Call.isQuiet]) env _
  case isFalse hfile =>
    refine iff_of_true ?_ fun h => absurd h hfile
    split
    · split
      · exact (oneAnswer_after_iff (by simp [Call.isQuiet]) env _).mpr
          (serveDirectory_oneAnswer env request filePath)
      · exact oneAnswer_of_sent (by simp [Call.isSend]) (by simp) (.inr rfl)
    · exact oneAnswer_of_sent (by simp [Call.isSend]) (by simp) (.inr rfl)

theorem findRoute_mem (h : (findRoute segs i routes params).1 = some (j, route)) :
    route ∈ routes := by
  induction routes generalizing i params with
  | nil => contradiction
  | cons first routes ih =>
    unfold findRoute at h
    split at h
    · split at h
      · cases h
        exact List.mem_cons_self
      · exact List.mem_cons_of_mem _ (ih h)
    · exact List.mem_cons_of_mem _ (ih h)

theorem findRootRoute_mem (h : findRootRoute i routes = some (j, route)) : route ∈ routes := by
  induction routes generalizing i with
  | nil => contradiction
  | cons first routes ih =>
    unfold findRootRoute at h
    split at h
    · cases h
      exact List.mem_cons_self
    · exact List.mem_cons_of_mem _ (ih h)

theorem isRouteExists_mem (h : isRouteExists routes uri params = some (some (i, route), params')) :
    route ∈ routes := by
  unfold isRouteExists at h
  split at h
  · exact findRootRoute_mem (Prod.mk.inj (Option.some.inj h)).1
  dsimp only at h
  split at h
  · exact findRoute_mem (congrArg Prod.fst (Option.some.inj h))
  · contradiction

theorem isRouteExists_eq_none_iff (routes : List HttpRoute) (uri : Bytes) (params : StringMap) :
    isRouteExists routes uri params = none ↔ maxRequestSegments < (strtok 47 uri).length := by
  unfold isRouteExists
  split
  case isTrue hroot =>
    have hsegs : strtok 47 uri = [] := by rw [hroot]; decide
    simp [hsegs]
  · dsimp only
    split <;> simp_all

theorem serveRoute_oneAnswer (h : AnswersOnce route.callback) (env : Env) (request : HttpRequest)
    (i : Nat) (params : StringMap) : OneAnswer env (serveRoute request i route params) := by
  obtain ⟨hsends, hreleases⟩ := h request params
  unfold serveRoute
  split
  · exact oneAnswer_of_sent (by simp [Call.isSend, hsends]) (by simp [hreleases]) (.inl rfl)
  · exact oneAnswer_of_sent (by simp [Call.isSend]) (by simp) (.inr rfl)

theorem serveRequest_oneAnswer_iff (hroutes : ∀ route ∈ server.httpRoutes, AnswersOnce route.callback)
    (env : Env) (request : HttpRequest) :
    OneAnswer env (serveRequest env server request) ↔ Answerable env server request := by
  unfold serveRequest
  split
  case h_1 h =>
    have hlong := (isRouteExists_eq_none_iff _ _ _).mp h
    exact iff_of_false (not_oneAnswer_fault rfl) fun ha => absurd ha.room (Nat.not_le_of_lt hlong)
  case h_2 i route params h =>
    have hroom : (strtok 47 request.uriText).length ≤ maxRequestSegments := by
      rw [← Nat.not_lt, ← isRouteExists_eq_none_iff server.httpRoutes _ createStringMap, h]
      simp
    have hsent := serveRoute_oneAnswer (hroutes route (isRouteExists_mem h)) env request i params
    refine iff_of_true ((oneAnswer_after_iff (by simp [Call.isQuiet]) env _).mpr hsent)
      ⟨hroom, fun ⟨params', hnone⟩ => ?_⟩
    simp [h] at hnone
  case h_3 params h =>
    have hroom : (strtok 47 request.uriText).length ≤ maxRequestSegments := by
      rw [← Nat.not_lt, ← isRouteExists_eq_none_iff server.httpRoutes _ createStringMap, h]
      simp
    rw [oneAnswer_after_iff (by simp [Call.isQuiet]), servePublic_oneAnswer_iff]
    exact ⟨fun hmime => ⟨hroom, fun _ => hmime⟩, fun ha => ha.mime ⟨params, h⟩⟩

-- ---------------------------------------------------------------------------
-- The callback
-- ---------------------------------------------------------------------------

/-- One run of the callback keeps to one answer and one release exactly if the
request, where it passes the checks, can be answered. -/
theorem oneAnswer_iff (hroutes : ∀ route ∈ server.httpRoutes, AnswersOnce route.callback)
    (env : Env) (text : Bytes) (n : Int) :
    OneAnswer env (httpServerCallback env server text n) ↔
      ∀ request ∈ (parseHttpRequest env text n).request, ∀ checked,
        checkRequest env.config request = .ok checked → Answerable env server checked := by
  unfold httpServerCallback
  rcases parseHttpRequest_cases env text n with ⟨rejected, -, heq⟩ | ⟨received, hreceived, heq⟩
  · rw [heq]
    refine iff_of_true (oneAnswer_of_sent ?_ ?_ (.inr rfl)) (by simp)
    · simp [Call.isSend]
    · simp
  rw [heq]
  cases hreceived with
  | rejected calls request statusCode n hcalls hheaders =>
    have hquiet : ∀ call ∈ calls, call.isQuiet := fun call h => isQuiet_of_isReceive (hcalls call h)
    refine iff_of_true (oneAnswer_of_sent ?_ ?_ (.inr rfl)) (by simp)
    · simp [Call.isSend, sends_quiet hquiet]
    · simp [releases_quiet hquiet]
  | accepted calls request n hcalls hheaders =>
    have hquiet : ∀ call ∈ Call.acquire .request :: .acquire .requestHeaders :: calls,
        call.isQuiet := by
      simp only [List.forall_mem_cons]
      exact ⟨rfl, rfl, fun call h => isQuiet_of_isReceive (hcalls call h)⟩
    simp only [Option.mem_some_iff, forall_eq']
    split
    case h_1 statusCode hchecked =>
      refine iff_of_true (oneAnswer_of_sent ?_ ?_ (.inr rfl)) (by simp [hchecked])
      · rw [sends_append, sends_quiet hquiet, sends_rejectRequest]
      · rw [releases_append, releases_quiet hquiet, releases_rejectRequest]
    case h_2 checked hchecked =>
      rw [oneAnswer_after_iff hquiet, serveRequest_oneAnswer_iff hroutes, hchecked]
      simp

-- ---------------------------------------------------------------------------
-- A page, a long URI and an unknown file
-- ---------------------------------------------------------------------------

def builtinServer : HttpServer := ⟨bytes "/srv/web", setupGeonsHttpRouter []⟩

theorem answersOnce_builtin : ∀ route ∈ builtinServer.httpRoutes, AnswersOnce route.callback := by
  have hcallbacks : builtinServer.httpRoutes.map (·.callback) =
      [callbackHome, callbackAbout, test] := rfl
  intro route hroute
  have hmem := List.mem_map_of_mem (f := HttpRoute.callback) hroute
  simp only [hcallbacks, List.mem_cons, List.not_mem_nil, or_false] at hmem
  rcases hmem with h | h | h <;> rw [h]
  · exact answersOnce_callbackHome
  · exact answersOnce_callbackAbout
  · exact answersOnce_test

theorem oneAnswer_about :
    OneAnswer .ok (httpServerCallback .ok builtinServer (bytes "GET /about HTTP/1.1\r\n\r\n") 23) :=
  (oneAnswer_iff answersOnce_builtin .ok _ 23).mpr fun request hrequest checked hchecked => by
    cases hrequest
    cases hchecked
    exact ⟨by decide +kernel, fun _ _ _ _ => ⟨rfl, rfl, rfl⟩⟩

def longUri : Bytes :=
  bytes "GET " ++ (List.replicate 129 (bytes "/a")).flatten ++ bytes " HTTP/1.1\r\n\r\n"

def unknownFile : Bytes := bytes "GET /data.bin HTTP/1.1\r\n\r\n"

theorem not_oneAnswer_longUri :
    (sends (httpServerCallback .ok builtinServer longUri 275).calls = 0 ∧
      ¬ OneAnswer .ok (httpServerCallback .ok builtinServer longUri 275)) ∧
    let env := { Env.ok with magicFile := none }
    (httpServerCallback env builtinServer unknownFile 26).result = .fault ∧
      ¬ OneAnswer env (httpServerCallback env builtinServer unknownFile 26) := by
  have hlong : (httpServerCallback .ok builtinServer longUri 275).result = .fault := by
    decide +kernel
  have hunknown : (httpServerCallback { Env.ok with magicFile := none } builtinServer
      unknownFile 26).result = .fault := by decide +kernel
  exact ⟨⟨by decide +kernel, not_oneAnswer_fault hlong⟩, hunknown, not_oneAnswer_fault hunknown⟩

end GeoNS.Http
