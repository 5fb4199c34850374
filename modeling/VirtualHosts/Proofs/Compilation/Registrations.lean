/-
The registrations that a compilation counts.

The walk meets every endpoint once and registers those that the process answers, whether or
not their location is new.  The count goes up with every registration; the backend is created
by the first one, and never again.
-/

import VirtualHosts.Proofs.Compilation.Chains

namespace VirtualHosts

variable {α : Type}

/-- The counters fit what has been registered: there is a backend if something is registered,
and then it was created once. -/
structure Tally (backend : Option (List (Registration α))) (created registered : Nat) : Prop where
  registered : registered = (backend.getD []).length
  created : created = if backend.isSome then 1 else 0
  nonempty : backend ≠ some []

namespace Tally

theorem none : Tally (none : Option (List (Registration α))) 0 0 :=
  ⟨rfl, rfl, by simp⟩

variable {backend : Option (List (Registration α))} {created registered : Nat}

theorem isSome_iff (tally : Tally backend created registered) :
    backend.isSome = true ↔ 0 < registered := by
  cases backend with
  | none => simp [tally.registered]
  | some taken =>
      have nonempty : taken ≠ [] := fun empty => tally.nonempty (by rw [empty])
      simp [tally.registered, List.length_pos_iff, nonempty]

end Tally

namespace Walk

/-! ### The counters along the walk -/

theorem note_tally {host : Host α} {endpoint : Endpoint α} {walk : Walk α}
    (tally : Tally walk.backend walk.created walk.registered) :
    Tally (walk.note host endpoint).backend (walk.note host endpoint).created
      (walk.note host endpoint).registered := by
  unfold note register
  cases endpoint.handler? with
  | none => exact tally
  | some handler =>
      have counted := tally.registered
      have made := tally.created
      cases held : walk.backend with
      | none =>
          rw [held] at counted made
          exact ⟨by simp [counted], by simp [made], by simp⟩
      | some taken =>
          rw [held] at counted made
          exact ⟨by simp [counted], by simp [made], by simp⟩

theorem visit_tally {settings : Settings} {host : Host α} {walk after : Walk α}
    {visit : Visit α} (tally : Tally walk.backend walk.created walk.registered)
    (visited : walk.visit settings host visit = .ok after) :
    Tally after.backend after.created after.registered := by
  cases visit with
  | route depth pathname =>
      simp only [Walk.visit] at visited
      split at visited
      · cases visited
      · cases visited
        exact tally
  | endpoint scope declared =>
      have under : Tally (walk.under scope).backend (walk.under scope).created
          (walk.under scope).registered := tally
      have located : Tally ((walk.under scope).addLocation settings declared).backend
          ((walk.under scope).addLocation settings declared).created
          ((walk.under scope).addLocation settings declared).registered := under
      obtain ⟨_, rfl⟩ | ⟨_, _, rfl⟩ := visitEndpoint_ok visited
      · exact note_tally located
      · exact note_tally under

theorem visits_tally {settings : Settings} {host : Host α} {walk after : Walk α}
    {visits : List (Visit α)} (tally : Tally walk.backend walk.created walk.registered)
    (visited : visits.foldlM (Walk.visit settings host) walk = .ok after) :
    Tally after.backend after.created after.registered :=
  foldlM_ok_induction
    (fun _ (state : Walk α) => Tally state.backend state.created state.registered) tally
    (fun _ _ _ _ holds stepped => visit_tally holds stepped) visited

end Walk

/-! ### Registrations and endpoints -/

theorem Endpoint.handler?_isSome_iff (endpoint : Endpoint α) :
    endpoint.handler?.isSome = true ↔ endpoint.mode = .process := by
  have absent := Walk.handler?_eq_none_iff endpoint
  rw [Option.isSome_iff_ne_none, ne_eq, absent, not_not]

/-- The registrations of a host are its endpoints that the process answers, one for each. -/
theorem Host.registrations_map (host : Host α) :
    (host.registrations.map fun registration =>
      (registration.hostname, registration.port, registration.pathname, registration.verbs,
        registration.chain.getLast?)) =
      (host.endpoints.filter (·.mode = .process)).map fun endpoint =>
        (host.hostname, host.options.port, endpoint.pathname, endpoint.verbs,
          endpoint.handler?) := by
  rw [← host.positions_endpoints, registrations]
  induction host.positions with
  | nil => rfl
  | cons position positions ih =>
      rw [List.filterMap_cons, List.map_cons, List.filter_cons, Walk.registration?]
      have answered := position.endpoint.handler?_isSome_iff
      cases given : position.endpoint.handler? with
      | none =>
          rw [given] at answered
          rw [if_neg (by simpa using mt answered.mpr Bool.false_ne_true)]
          exact ih
      | some handler =>
          rw [given] at answered
          rw [if_pos (by simpa using answered.mp rfl), Option.map_some, List.map_cons,
            List.map_cons, ih, given]
          simp

namespace Compilation

theorem hosts_tally {settings : Settings} {hosts : List (Host α)} {progress after : Progress α}
    (tally : Tally progress.backend progress.created progress.registered)
    (visited : hosts.foldlM (Progress.visitHost settings) progress = .ok after) :
    Tally after.backend after.created after.registered := by
  refine foldlM_ok_induction
    (fun _ (state : Progress α) => Tally state.backend state.created state.registered) tally
    ?_ visited
  intro _ host before next holds stepped
  obtain ⟨walk, ran, _, backend, created, registered⟩ := Progress.visitHost_ok stepped
  rw [backend, created, registered]
  refine Walk.visits_tally ?_ ran
  exact holds

theorem build_tally {settings : Settings} {backend : Backend α} {app : Application α}
    {compilation : Compilation α} (compiled : build settings backend app = .ok compilation) :
    Tally compilation.backend compilation.created compilation.registrations := by
  obtain ⟨progress, ran, _, _, held, _, registered, created⟩ := build_ok compiled
  rw [held, registered, created]
  exact hosts_tally Tally.none ran

/-- The registrations are, host after host, the endpoints of each host that the process answers,
one for each and in their order, whether their location is new or not.  Each carries the name and
the port of its host, the whole pathname and the verbs of its endpoint, and its chain ends with
the handler of the endpoint.  Their number is the count of the compilation; a backend is there if
it is positive, and was created once then, and never otherwise. -/
theorem process_endpoints_registered_once {settings : Settings} {backend : Backend α}
    {app : Application α} {compilation : Compilation α}
    (compiled : build settings backend app = .ok compilation) :
    ((compilation.backend.getD []).map fun registration =>
      (registration.hostname, registration.port, registration.pathname, registration.verbs,
        registration.chain.getLast?)) =
      (app.hosts.flatMap fun host =>
        (host.endpoints.filter (·.mode = .process)).map fun endpoint =>
          (host.hostname, host.options.port, endpoint.pathname, endpoint.verbs,
            endpoint.handler?)) ∧
    compilation.registrations = (app.hosts.flatMap fun host =>
      host.endpoints.filter (·.mode = .process)).length ∧
    (compilation.backend.isSome = true ↔ 0 < compilation.registrations) ∧
    compilation.created = if 0 < compilation.registrations then 1 else 0 := by
  have tally := build_tally compiled
  have listed : ((compilation.backend.getD []).map fun registration =>
      (registration.hostname, registration.port, registration.pathname, registration.verbs,
        registration.chain.getLast?)) =
      app.hosts.flatMap fun host =>
        (host.endpoints.filter (·.mode = .process)).map fun endpoint =>
          (host.hostname, host.options.port, endpoint.pathname, endpoint.verbs,
            endpoint.handler?) := by
    rw [build_registrations compiled, List.map_flatMap]
    congr 1
    funext host
    exact host.registrations_map
  refine ⟨listed, ?_, tally.isSome_iff, ?_⟩
  · have sizes := congrArg List.length listed
    rw [List.length_map] at sizes
    rw [tally.registered, sizes, List.length_flatMap, List.length_flatMap]
    simp only [List.length_map]
  · have made := tally.created
    simp only [tally.isSome_iff] at made
    exact made

def repeated : Application Nat := {
  hosts := [
    { hostname := "a.test", options := {}, routes := [⟨"/api", [
        .endpoint ⟨"/api*", .single .post, .process 2⟩,
        .endpoint ⟨"/api", .every, .process 3⟩,
        .endpoint ⟨"/about", .single .get, .file "pages/about.html"⟩]⟩]
      base := [.endpoint ⟨"*", .every, .process 1⟩] },
    { hostname := "b.test", options := { port := 8080 }, routes := []
      base := [.endpoint ⟨"/", .single .get, .process 4⟩,
        .endpoint ⟨"*", .single .put, .process 5⟩] }] }

theorem process_endpoints_registered_repeated :
    ∃ compilation, build {} ⟨fun _ => .ok ()⟩ repeated = .ok compilation ∧
      (compilation.backend.getD []).map (fun registration =>
        (registration.hostname, registration.port, registration.pathname)) =
          [("a.test", 80, "*"), ("a.test", 80, "/api*"), ("a.test", 80, "/api"),
            ("b.test", 8080, "/"), ("b.test", 8080, "*")] ∧
      compilation.registrations = 5 ∧ compilation.backend.isSome = true ∧
      compilation.created = 1 := by
  have succeeds : (build {} ⟨fun _ => .ok ()⟩ repeated).isOk = true := by decide +kernel
  obtain ⟨compilation, compiled⟩ := (isOk_iff_exists _).mp succeeds
  obtain ⟨listed, counted, some, created⟩ := process_endpoints_registered_once compiled
  have five : compilation.registrations = 5 := by
    rw [counted]
    decide +kernel
  rw [five] at some created
  refine ⟨compilation, compiled, ?_, five, some.mpr (by decide), created⟩
  have fields := congrArg (List.map fun entry => (entry.1, entry.2.1, entry.2.2.1)) listed
  rw [List.map_map] at fields
  refine fields.trans ?_
  decide +kernel

end Compilation

end VirtualHosts
