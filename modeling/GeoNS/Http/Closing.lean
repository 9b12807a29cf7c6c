import GeoNS.Http.Server

/-!
# Who closes

Every way through `http_server_callback` closes the request's descriptor, but
for the ones that end in the callback of a route that does not.
-/

namespace GeoNS.Http

open CString

theorem close_mem_killHttpConnection (request : HttpRequest) : .close ∈ killHttpConnection request := by
  simp [killHttpConnection]

theorem close_mem_rejectRequest (request : HttpRequest) (statusCode : Nat) :
    .close ∈ rejectRequest request statusCode :=
  List.mem_append_right _ (close_mem_killHttpConnection request)

theorem close_mem_sendError (request : HttpRequest) (statusCode : Nat) (body : Bytes) :
    .close ∈ sendError request statusCode body :=
  List.mem_append_right _ (close_mem_killHttpConnection request)

theorem close_mem_parseHttpRequest_iff (env : Env) (text : Bytes) (bufferSize : Int) :
    .close ∈ (parseHttpRequest env text bufferSize).calls ↔
      (parseHttpRequest env text bufferSize).request = none := by
  cases hrequest : (parseHttpRequest env text bufferSize).request with
  | some request =>
    obtain ⟨calls, hcalls, hreceive⟩ := parseHttpRequest_calls hrequest
    have hopen : .close ∉ calls := fun hclose => absurd (hreceive _ hclose) (by simp [Call.isReceive])
    simp [hcalls, hopen]
  | none =>
    refine iff_of_true ?_ rfl
    rcases parseHttpRequest_cases env text bufferSize with
      ⟨request, -, hparsed⟩ | ⟨received, hreceived, hparsed⟩
    · rw [hparsed]
      exact List.mem_cons_of_mem _ (close_mem_rejectRequest request 431)
    · rw [hparsed] at hrequest ⊢
      cases hreceived with
      | accepted => contradiction
      | rejected calls request statusCode => simp [close_mem_rejectRequest]

def Run.Ends (run : Run) : Prop := run.result = .fault ∨ .close ∈ run.calls

theorem Run.Ends.after {run : Run} (h : run.Ends) (calls : List Call) : (run.after calls).Ends :=
  h.imp id (List.mem_append_right calls)

theorem ends_serveFile (env : Env) (request : HttpRequest) (filePath : Bytes) :
    (serveFile env request filePath).Ends := by
  have hkill := close_mem_killHttpConnection request
  unfold serveFile
  split
  · exact .inr (List.mem_cons_of_mem _ hkill)
  dsimp only
  split
  · exact .inr (by simp [hkill])
  split
  · exact .inr (by simp [hkill])
  · exact .inl rfl

theorem ends_servePublic (env : Env) (request : HttpRequest) (filePath : Bytes) :
    (servePublic env request filePath).Ends := by
  unfold servePublic
  split
  · exact (ends_serveFile env request filePath).after _
  split
  · split
    · refine Run.Ends.after (.inr ?_) _
      have hkill := close_mem_killHttpConnection request
      unfold serveDirectory
      split <;> simp [hkill]
    · exact .inr (List.mem_append_right _ (close_mem_sendError request 404 _))
  · exact .inr (List.mem_cons_of_mem _ (close_mem_sendError request 403 _))

def LeavesOpen (env : Env) (server : HttpServer) (text : Bytes) (bufferSize : Int) : Prop :=
  ∃ request checked i route params,
    (parseHttpRequest env text bufferSize).request = some request ∧
      checkRequest env.config request = .ok checked ∧
      isRouteExists server.httpRoutes checked.uriText createStringMap = some (some (i, route), params) ∧
      isRequestMethodAllowed route checked ∧ .close ∉ route.callback checked params

theorem Run.Ends.after_iff {run : Run} {calls : List Call} (h : .close ∉ calls) :
    (run.after calls).Ends ↔ run.Ends := by
  simp only [Run.Ends, Run.after, List.mem_append, h, false_or]

theorem ends_serveRequest_iff (env : Env) (server : HttpServer) (request : HttpRequest) :
    (serveRequest env server request).Ends ↔
      ∀ i route params,
        isRouteExists server.httpRoutes request.uriText createStringMap = some (some (i, route), params) →
        isRequestMethodAllowed route request → .close ∈ route.callback request params := by
  unfold serveRequest
  cases hroute : isRouteExists server.httpRoutes request.uriText createStringMap with
  | none => exact iff_of_true (.inl rfl) (by simp)
  | some found =>
    obtain ⟨route, params⟩ := found
    cases route with
    | none => exact iff_of_true ((ends_servePublic env request _).after _) (by simp)
    | some found =>
      obtain ⟨i, route⟩ := found
      rw [Run.Ends.after_iff (by simp), serveRoute]
      constructor
      · rintro hends i' route' params' ⟨⟩ hallowed
        rw [if_pos hallowed] at hends
        rcases hends with hfault | hclose
        · contradiction
        · simpa using hclose
      · intro hcallback
        by_cases hallowed : isRequestMethodAllowed route request = true
        · rw [if_pos hallowed]
          refine .inr ?_
          simp [hcallback i route params rfl hallowed]
        · rw [if_neg hallowed]
          exact .inr (List.mem_append_left _ (close_mem_sendError request 405 _))

theorem leavesOpen_iff (env : Env) (server : HttpServer) (text : Bytes) (bufferSize : Int) :
    LeavesOpen env server text bufferSize ↔
      ¬ (httpServerCallback env server text bufferSize).Ends := by
  have hparse := close_mem_parseHttpRequest_iff env text bufferSize
  cases hrequest : (parseHttpRequest env text bufferSize).request with
  | none =>
    have hrun : httpServerCallback env server text bufferSize =
        ⟨(parseHttpRequest env text bufferSize).calls, .ret (-1)⟩ := by
      simp only [httpServerCallback, hrequest]
    rw [hrun]
    exact iff_of_false (by simp [LeavesOpen, hrequest]) fun hnot => hnot (.inr (hparse.mpr hrequest))
  | some request =>
    have hquiet : .close ∉ (parseHttpRequest env text bufferSize).calls := by
      rw [hparse, hrequest]
      simp
    cases hchecked : checkRequest env.config request with
    | error statusCode =>
      have hrun : httpServerCallback env server text bufferSize =
          ⟨(parseHttpRequest env text bufferSize).calls ++ rejectRequest request statusCode,
            .ret (-1)⟩ := by
        simp only [httpServerCallback, hrequest, hchecked]
      rw [hrun]
      refine iff_of_false (by simp [LeavesOpen, hrequest, hchecked]) fun hnot => hnot (.inr ?_)
      exact List.mem_append_right _ (close_mem_rejectRequest request statusCode)
    | ok checked =>
      have hrun : httpServerCallback env server text bufferSize =
          (serveRequest env server checked).after (parseHttpRequest env text bufferSize).calls := by
        simp only [httpServerCallback, hrequest, hchecked]
      rw [hrun, Run.Ends.after_iff hquiet, ends_serveRequest_iff]
      constructor
      · rintro ⟨_, _, i, route, params, hrequest', hchecked', hroute, hallowed, hopen⟩ hends
        obtain rfl := Option.some.inj (hrequest.symm.trans hrequest')
        obtain rfl := Except.ok.inj (hchecked.symm.trans hchecked')
        exact hopen (hends i route params hroute hallowed)
      · intro hnot
        simp only [not_forall] at hnot
        obtain ⟨i, route, params, hroute, hallowed, hopen⟩ := hnot
        exact ⟨request, checked, i, route, params, hrequest, hchecked, hroute, hallowed, hopen⟩

instance (env : Env) (server : HttpServer) (text : Bytes) (bufferSize : Int) :
    Decidable (LeavesOpen env server text bufferSize) :=
  have : Decidable (httpServerCallback env server text bufferSize).Ends :=
    inferInstanceAs (Decidable (_ ∨ _))
  decidable_of_iff _ (leavesOpen_iff env server text bufferSize).symm

end GeoNS.Http
