/-
Compilations that fail.

A route is a violation if it is nested too deep, and an endpoint if an earlier one of its host
has the same location and the two are not both answered by the process.  A compilation fails
at the first violation, in the order of the visits and host after host, or else when the
registrations cannot be served together.
-/

import VirtualHosts.Proofs.Compilation.Registrations
import VirtualHosts.Proofs.Compilation.ServerBlocks

namespace VirtualHosts

variable {α : Type}

/-! ### Violations -/

/-- A visit is a violation, given the visits of the same host before it, and this is how it is
reported. -/
inductive Visit.Violates (settings : Settings) (host : Host α) (seen : List (Visit α)) :
    Visit α → CompilationError → Prop where
  | nesting {depth : Nat} {pathname : String} : settings.maxRouteDepth < depth →
      Violates settings host seen (.route depth pathname)
        (.nestingTooDeep pathname settings.maxRouteDepth)
  | location {earlier scope : List (Middleware α)} {first second : Endpoint α} :
      .endpoint earlier first ∈ seen →
      locationPath first.pathname = locationPath second.pathname →
      ¬(first.mode = .process ∧ second.mode = .process) →
      Violates settings host seen (.endpoint scope second)
        (.conflictingLocation host.hostname (locationPath second.pathname) first.mode.name
          second.mode.name)

/-- None of the visits is a violation. -/
def Visit.Clear (settings : Settings) (host : Host α) (visits : List (Visit α)) : Prop :=
  ∀ before visit after, visits = before ++ visit :: after →
    ∀ error, ¬visit.Violates settings host before error

namespace Host

def Clear (settings : Settings) (host : Host α) : Prop :=
  Visit.Clear settings host host.visits

def FirstViolation (settings : Settings) (host : Host α) (error : CompilationError) : Prop :=
  ∃ before visit after, host.visits = before ++ visit :: after ∧
    Visit.Clear settings host before ∧ visit.Violates settings host before error

end Host

/-! ### A walk fails at the first violation -/

namespace Walk

theorem mem_met_iff {seen : List (Visit α)} {endpoint : Endpoint α} :
    endpoint ∈ (seen.filterMap Visit.met?).map Prod.snd ↔
      ∃ scope, .endpoint scope endpoint ∈ seen := by
  rw [List.mem_map]
  constructor
  · rintro ⟨⟨scope, declared⟩, met, rfl⟩
    obtain ⟨visit, member, same⟩ := List.mem_filterMap.mp met
    cases visit with
    | route depth pathname => cases same
    | endpoint own other =>
        cases same
        exact ⟨scope, member⟩
  · rintro ⟨scope, member⟩
    exact ⟨(scope, endpoint), List.mem_filterMap.mpr ⟨_, member, rfl⟩, rfl⟩

/-- Behind visits that it has served, a walk fails at a visit if it is a violation. -/
theorem visit_error_iff {settings : Settings} {host : Host α} {header : Nginx.Clause}
    {seen : List (Visit α)} {walk : Walk α}
    (served : walk.Served settings header ((seen.filterMap Visit.met?).map Prod.snd))
    (visit : Visit α) (error : CompilationError) :
    walk.visit settings host visit = .error error ↔ visit.Violates settings host seen error := by
  obtain ⟨⟨_, serves, _⟩, known, unknown⟩ := served
  constructor
  · intro failed
    cases visit with
    | route depth pathname =>
        simp only [Walk.visit] at failed
        split at failed
        · rename_i deep
          cases failed
          exact .nesting deep
        · cases failed
    | endpoint scope second =>
        rw [Walk.visit, visitEndpoint_eq] at failed
        split at failed
        · cases failed
        · rename_i mode remembered
          split at failed
          · cases failed
          · rename_i apart
            cases failed
            obtain ⟨first, met, path, rfl⟩ := known _ _ remembered
            obtain ⟨earlier, member⟩ := mem_met_iff.mp met
            exact .location member path apart
  · intro violates
    cases violates with
    | nesting deep =>
        simp only [Walk.visit]
        exact if_pos deep
    | @location earlier scope first second member path apart =>
        have met := mem_met_iff.mpr ⟨earlier, member⟩
        rw [Walk.visit, visitEndpoint_eq]
        cases remembered : (walk.under scope).emitted.lookup (locationPath second.pathname) with
        | none => exact absurd path (unknown _ remembered first met)
        | some mode =>
            -- The walk remembers the mode of one earlier endpoint, and all of them have it.
            obtain ⟨other, otherMet, otherPath, rfl⟩ := known _ _ remembered
            have same := serves.modes other otherMet first met (otherPath.trans path.symm)
            rw [← same] at apart ⊢
            exact if_neg apart

theorem served_of_visits {settings : Settings} {host : Host α} {walk after : Walk α}
    (fresh : walk.emitted = []) {visits : List (Visit α)}
    (visited : visits.foldlM (Walk.visit settings host) walk = .ok after) :
    after.Served settings walk.server ((visits.filterMap Visit.met?).map Prod.snd) :=
  Served.visits fresh rfl visited

theorem visits_ok_iff {settings : Settings} {host : Host α} {walk : Walk α}
    (fresh : walk.emitted = []) (visits : List (Visit α)) :
    (∃ after, visits.foldlM (Walk.visit settings host) walk = .ok after) ↔
      Visit.Clear settings host visits := by
  constructor
  · rintro ⟨final, ran⟩ before visit after rfl error violates
    rw [List.foldlM_append] at ran
    cases reached : before.foldlM (Walk.visit settings host) walk with
    | error failure =>
        rw [reached] at ran
        cases ran
    | ok state =>
        have failed := (visit_error_iff (served_of_visits fresh reached) visit error).mpr violates
        rw [reached] at ran
        change List.foldlM (Walk.visit settings host) state (visit :: after) = .ok final at ran
        rw [List.foldlM_cons, failed] at ran
        cases ran
  · intro clear
    cases ran : visits.foldlM (Walk.visit settings host) walk with
    | ok final => exact ⟨final, rfl⟩
    | error failure =>
        obtain ⟨before, visit, after, state, split, reached, failed⟩ := foldlM_error_iff.mp ran
        have violates :=
          (visit_error_iff (served_of_visits fresh reached) visit failure).mp failed
        exact absurd violates (clear before visit after split failure)

theorem visits_error_iff {settings : Settings} {host : Host α} {walk : Walk α}
    (fresh : walk.emitted = []) (visits : List (Visit α)) (error : CompilationError) :
    visits.foldlM (Walk.visit settings host) walk = .error error ↔
      ∃ before visit after, visits = before ++ visit :: after ∧
        Visit.Clear settings host before ∧ visit.Violates settings host before error := by
  rw [foldlM_error_iff]
  constructor
  · rintro ⟨before, visit, after, state, split, reached, failed⟩
    exact ⟨before, visit, after, split, (visits_ok_iff fresh before).mp ⟨state, reached⟩,
      (visit_error_iff (served_of_visits fresh reached) visit error).mp failed⟩
  · rintro ⟨before, visit, after, split, clear, violates⟩
    obtain ⟨state, reached⟩ := (visits_ok_iff fresh before).mpr clear
    exact ⟨before, visit, after, state, split, reached,
      (visit_error_iff (served_of_visits fresh reached) visit error).mpr violates⟩

end Walk

namespace Compilation

/-! ### Host after host -/

theorem Progress.visitHost_eq (settings : Settings) (progress : Progress α) (host : Host α) :
    ∃ finish : Walk α → Progress α, progress.visitHost settings host =
      (host.visits.foldlM (Walk.visit settings host) (progress.walk settings host)).map
        finish := by
  refine ⟨fun walk => {
    http := progress.http.clause "server" fun _ => walk.server
    aliases := if progress.aliases.contains host.hostname then progress.aliases
      else progress.aliases ++ [host.hostname]
    backend := walk.backend
    created := walk.created
    registered := walk.registered }, ?_⟩
  change (do
    let walk ← Walk.visitHost settings host (progress.walk settings host)
    return ({
      http := progress.http.clause "server" fun _ => walk.server
      aliases := _, backend := walk.backend, created := walk.created
      registered := walk.registered } : Progress α)) = _
  rw [Walk.visitHost_eq settings host _ rfl]
  cases host.visits.foldlM (Walk.visit settings host) (progress.walk settings host) <;> rfl

theorem Progress.visitHost_ok_iff (settings : Settings) (progress : Progress α) (host : Host α) :
    (∃ after, progress.visitHost settings host = .ok after) ↔ host.Clear settings := by
  obtain ⟨finish, visited⟩ := Progress.visitHost_eq settings progress host
  have fresh : (progress.walk settings host).emitted = [] := rfl
  rw [Host.Clear, visited,
    ← Walk.visits_ok_iff fresh host.visits]
  cases host.visits.foldlM (Walk.visit settings host) (progress.walk settings host) <;>
    simp [Except.map]

theorem Progress.visitHost_error_iff (settings : Settings) (progress : Progress α)
    (host : Host α) (error : CompilationError) :
    progress.visitHost settings host = .error error ↔ host.FirstViolation settings error := by
  obtain ⟨finish, visited⟩ := Progress.visitHost_eq settings progress host
  have fresh : (progress.walk settings host).emitted = [] := rfl
  rw [Host.FirstViolation, visited,
    ← Walk.visits_error_iff fresh host.visits]
  cases host.visits.foldlM (Walk.visit settings host) (progress.walk settings host) <;>
    simp [Except.map]

theorem hosts_ok_iff (settings : Settings) (progress : Progress α) (hosts : List (Host α)) :
    (∃ after, hosts.foldlM (Progress.visitHost settings) progress = .ok after) ↔
      ∀ host ∈ hosts, host.Clear settings :=
  foldlM_ok_iff_forall (Progress.visitHost_ok_iff settings) progress hosts

theorem hosts_error_iff (settings : Settings) (progress : Progress α) (hosts : List (Host α))
    (error : CompilationError) :
    hosts.foldlM (Progress.visitHost settings) progress = .error error ↔
      ∃ earlier host later, hosts = earlier ++ host :: later ∧
        (∀ other ∈ earlier, other.Clear settings) ∧ host.FirstViolation settings error := by
  rw [foldlM_error_iff]
  constructor
  · rintro ⟨earlier, host, later, state, split, reached, failed⟩
    exact ⟨earlier, host, later, split,
      (hosts_ok_iff settings progress earlier).mp ⟨state, reached⟩,
      (Progress.visitHost_error_iff settings state host error).mp failed⟩
  · rintro ⟨earlier, host, later, split, clear, violates⟩
    obtain ⟨state, reached⟩ := (hosts_ok_iff settings progress earlier).mpr clear
    exact ⟨earlier, host, later, state, split, reached,
      (Progress.visitHost_error_iff settings state host error).mpr violates⟩

/-! ### The check of the registrations -/

/-- Behind a run over the hosts there is a backend if something is registered. -/
theorem hosts_backend {settings : Settings} {hosts : List (Host α)} {progress : Progress α}
    (ran : hosts.foldlM (Progress.visitHost settings) (Progress.start settings) = .ok progress) :
    progress.backend = if hosts.flatMap Host.registrations = [] then none
      else some (hosts.flatMap Host.registrations) := by
  have listed := hosts_registrations ran
  have tally := hosts_tally Tally.none ran
  rw [Progress.start, Option.getD_none, List.nil_append] at listed
  cases held : progress.backend with
  | none =>
      rw [held, Option.getD_none] at listed
      rw [if_pos listed.symm]
  | some taken =>
      rw [held, Option.getD_some] at listed
      rw [← listed, if_neg]
      intro empty
      exact tally.nonempty (by rw [held, empty])

theorem build_of_hosts_ok {settings : Settings} (backend : Backend α) {app : Application α}
    {progress : Progress α}
    (ran : app.hosts.foldlM (Progress.visitHost settings) (Progress.start settings) =
      .ok progress) :
    ∃ compilation, build settings backend app =
      match progress.backend with
      | none => .ok compilation
      | some registrations =>
          match backend.check registrations with
          | .ok () => .ok compilation
          | .error refusal => .error (.conflictingRoutes refusal) := by
  refine ⟨{
    config := (globalDirectives settings.boilerplate .root).clause "http" fun _ => progress.http
    backend := progress.backend
    aliases := progress.aliases
    registrations := progress.registered
    created := progress.created }, ?_⟩
  change (do
    let progress ← app.hosts.foldlM (Progress.visitHost settings) (Progress.start settings)
    _) = _
  rw [ran]
  simp only [bind, Except.bind]
  cases progress.backend with
  | none => rfl
  | some registrations => cases backend.check registrations <;> rfl

theorem build_of_hosts_error {settings : Settings} (backend : Backend α) {app : Application α}
    {error : CompilationError}
    (ran : app.hosts.foldlM (Progress.visitHost settings) (Progress.start settings) =
      .error error) : build settings backend app = .error error := by
  change (do
    let progress ← app.hosts.foldlM (Progress.visitHost settings) (Progress.start settings)
    _) = _
  rw [ran]
  rfl

/-- A compilation fails with the first violation: that of the first host that has one, in the
order of its visits.  Without a violation it fails if something is registered that the backend
refuses, and succeeds otherwise. -/
theorem build_fails_at_first_violation (settings : Settings) (backend : Backend α)
    (app : Application α) :
    (∀ error, build settings backend app = .error error ↔
      (∃ earlier host later, app.hosts = earlier ++ host :: later ∧
        (∀ other ∈ earlier, other.Clear settings) ∧ host.FirstViolation settings error) ∨
      (∀ host ∈ app.hosts, host.Clear settings) ∧
        app.hosts.flatMap Host.registrations ≠ [] ∧
        ∃ refusal, backend.check (app.hosts.flatMap Host.registrations) = .error refusal ∧
          error = .conflictingRoutes refusal) ∧
    ((∃ compilation, build settings backend app = .ok compilation) ↔
      (∀ host ∈ app.hosts, host.Clear settings) ∧
        (app.hosts.flatMap Host.registrations ≠ [] →
          backend.check (app.hosts.flatMap Host.registrations) = .ok ())) := by
  cases ran : app.hosts.foldlM (Progress.visitHost settings) (Progress.start settings) with
  | error failure =>
      have violated := (hosts_error_iff settings _ app.hosts failure).mp ran
      have unclear : ¬∀ host ∈ app.hosts, host.Clear settings := by
        rw [← hosts_ok_iff settings (Progress.start settings), ran]
        simp
      rw [build_of_hosts_error backend ran]
      simp only [unclear, false_and, or_false]
      constructor
      · intro error
        rw [← hosts_error_iff settings (Progress.start settings), ran]
        simp only [Except.error.injEq]
      · simp
  | ok progress =>
      have clear := iff_true_intro ((hosts_ok_iff settings _ app.hosts).mp ⟨progress, ran⟩)
      have unviolated (error : CompilationError) : ¬∃ earlier host later,
          app.hosts = earlier ++ host :: later ∧
            (∀ other ∈ earlier, other.Clear settings) ∧ host.FirstViolation settings error := by
        rw [← hosts_error_iff settings (Progress.start settings), ran]
        simp
      obtain ⟨compilation, built⟩ := build_of_hosts_ok backend ran
      rw [hosts_backend ran] at built
      simp only [unviolated, false_or, clear, true_and]
      by_cases empty : app.hosts.flatMap Host.registrations = []
      · rw [if_pos empty] at built
        simp [built, empty]
      · rw [if_neg empty] at built
        dsimp only at built
        rw [built]
        cases checked : backend.check (app.hosts.flatMap Host.registrations) with
        | ok accepted => simp
        | error refusal => simp [empty, eq_comm]

end Compilation

end VirtualHosts
