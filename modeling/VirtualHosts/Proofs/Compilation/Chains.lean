/-
The chains that a compilation registers.

Every endpoint that the process answers is registered with the handlers of the
middleware in scope at its position, as far as it applies to its pathname, and its own
handler last.  Nothing else gets into a chain.
-/

import VirtualHosts.Proofs.Compilation.Hosts
import VirtualHosts.Proofs.Compilation.Positions

namespace VirtualHosts

variable {α : Type}

namespace Walk

theorem visit_registrations {settings : Settings} {host : Host α} {walk after : Walk α}
    {visit : Visit α} (visited : walk.visit settings host visit = .ok after) :
    after.backend.getD [] = walk.backend.getD [] ++
      (visit.met?.bind fun (scope, endpoint) => registration? host scope endpoint).toList := by
  cases visit with
  | route depth pathname =>
      simp only [Walk.visit] at visited
      split at visited
      · cases visited
      · cases visited
        simp [Visit.met?]
  | endpoint scope declared =>
      obtain ⟨_, rfl⟩ | ⟨_, _, rfl⟩ := visitEndpoint_ok visited
      · rw [note_registrations, addLocation_backend, addLocation_middleware]
        rfl
      · rw [note_registrations]
        rfl

theorem visits_registrations {settings : Settings} {host : Host α} {walk after : Walk α}
    {visits : List (Visit α)}
    (visited : visits.foldlM (Walk.visit settings host) walk = .ok after) :
    after.backend.getD [] = walk.backend.getD [] ++
      (visits.filterMap Visit.met?).filterMap
        fun (scope, endpoint) => registration? host scope endpoint := by
  refine foldlM_ok_induction
    (fun seen (state : Walk α) => state.backend.getD [] = walk.backend.getD [] ++
      (seen.filterMap Visit.met?).filterMap
        fun (scope, endpoint) => registration? host scope endpoint)
    (by simp) ?_ visited
  intro seen visit before next holds stepped
  rw [visit_registrations stepped, holds, List.filterMap_append, List.filterMap_append,
    List.append_assoc]
  congr 2
  cases visit with
  | route depth pathname => rfl
  | endpoint scope declared =>
      cases registered : registration? host scope declared <;>
        simp [Visit.met?, registered]

end Walk

def Host.registrations (host : Host α) : List (Registration α) :=
  host.positions.filterMap fun position =>
    Walk.registration? host position.scope position.endpoint

namespace Compilation

theorem Progress.visitHost_registrations {settings : Settings} {progress after : Progress α}
    {host : Host α} (visited : progress.visitHost settings host = .ok after) :
    after.backend.getD [] = progress.backend.getD [] ++ host.registrations := by
  obtain ⟨walk, ran, _, held, _⟩ := Progress.visitHost_ok visited
  rw [held, Walk.visits_registrations ran, Host.visits_met, List.filterMap_map]
  rfl

theorem hosts_registrations {settings : Settings} {hosts : List (Host α)}
    {progress after : Progress α}
    (visited : hosts.foldlM (Progress.visitHost settings) progress = .ok after) :
    after.backend.getD [] = progress.backend.getD [] ++ hosts.flatMap Host.registrations := by
  refine foldlM_ok_induction
    (fun seen (state : Progress α) => state.backend.getD [] =
      progress.backend.getD [] ++ seen.flatMap Host.registrations)
    (by simp) ?_ visited
  intro seen host before next holds stepped
  rw [Progress.visitHost_registrations stepped, holds, List.flatMap_append, List.append_assoc]
  simp

theorem build_registrations {settings : Settings} {backend : Backend α} {app : Application α}
    {compilation : Compilation α} (compiled : build settings backend app = .ok compilation) :
    compilation.backend.getD [] = app.hosts.flatMap Host.registrations := by
  obtain ⟨progress, ran, _, _, held, _⟩ := build_ok compiled
  rw [held, hosts_registrations ran]
  rfl

/-- What is registered is one registration for each position of an endpoint that the process
answers, host after host and position after position.  Its chain holds the handlers of the
middleware in scope at the position that applies to the pathname, in the order of declaration,
and then the handler of the endpoint.  Every endpoint has one position.  The middleware in
scope there is chosen, in order, from what is declared on the same host. -/
theorem registered_chains_of_scopes {settings : Settings} {backend : Backend α}
    {app : Application α} {compilation : Compilation α}
    (compiled : build settings backend app = .ok compilation) :
    (compilation.backend.getD [] = app.hosts.flatMap fun host =>
      host.positions.filterMap fun position =>
        position.endpoint.handler?.map fun handler => {
          hostname := host.hostname
          port := host.options.port
          pathname := position.endpoint.pathname
          verbs := position.endpoint.verbs
          chain := (position.scope.filter (·.appliesTo position.endpoint.pathname)).map
            Middleware.handler ++ [handler] }) ∧
    ∀ host ∈ app.hosts,
      host.positions.map Position.endpoint = host.endpoints ∧
      (∀ position, position ∈ host.positions ↔ host.Holds position) ∧
      (∀ position ∈ host.positions, position.scope.Sublist host.declaredMiddleware ∧
        (position.endpoint.handler?.isSome = true ↔ position.endpoint.mode = .process)) := by
  refine ⟨build_registrations compiled, ?_⟩
  intro host _
  refine ⟨host.positions_endpoints, host.mem_positions_iff, ?_⟩
  intro position counted
  refine ⟨((host.mem_positions_iff position).mp counted).scope_sublist, ?_⟩
  have absent := Walk.handler?_eq_none_iff position.endpoint
  rw [Option.isSome_iff_ne_none, ne_eq, absent, not_not]

def nested : Application Nat := {
  hosts := [{
    hostname := "a.test"
    options := {}
    base := [
      .endpoint ⟨"/first", .every, .process 1⟩, .middleware ⟨"*", 10⟩,
      .endpoint ⟨"/second", .every, .process 2⟩]
    routes := [⟨"/x", [
      .route "/y" [.middleware ⟨"/x", 20⟩, .endpoint ⟨"/x/y", .every, .process 3⟩],
      .middleware ⟨"/elsewhere", 30⟩, .middleware ⟨"*", 40⟩,
      .endpoint ⟨"/x/z", .every, .process 4⟩, .middleware ⟨"*", 50⟩]⟩] }] }

theorem registered_chains_nested :
    ∃ compilation, build {} ⟨fun _ => .ok ()⟩ nested = .ok compilation ∧
      (compilation.backend.getD []).map (fun registration =>
        (registration.pathname, registration.chain)) =
          [("/first", [1]), ("/second", [10, 2]), ("/x/y", [10, 20, 3]), ("/x/z", [10, 40, 4])] := by
  have succeeds : (build {} ⟨fun _ => .ok ()⟩ nested).isOk = true := by decide +kernel
  obtain ⟨compilation, compiled⟩ := (isOk_iff_exists _).mp succeeds
  refine ⟨compilation, compiled, ?_⟩
  rw [(registered_chains_of_scopes compiled).1]
  decide +kernel

end Compilation

end VirtualHosts
