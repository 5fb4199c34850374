/-
Middleware and the configuration.

Without its middleware an application is compiled to the same configuration: the walk takes the
middleware along for the chains, and nothing but the chains depends on it.  What the chains lose
is all in front of their last handler.
-/

import Mathlib.Data.List.Forall2
import VirtualHosts.Proofs.Compilation.Registrations
import VirtualHosts.Proofs.Dispatch.Refusals

namespace VirtualHosts

variable {α : Type}

/-! ### Trees without middleware -/

namespace Entry

mutual

/-- An entry without the middleware in it, unless it is middleware. -/
def bare? : Entry α → Option (Entry α)
  | .endpoint declared => some (.endpoint declared)
  | .middleware _ => none
  | .route pathname entries => some (.route pathname (listBare entries))

def listBare : List (Entry α) → List (Entry α)
  | [] => []
  | entry :: rest => entry.bare?.toList ++ listBare rest

end

end Entry

def Route.bare (route : Route α) : Route α :=
  { route with entries := Entry.listBare route.entries }

def Host.bare (host : Host α) : Host α :=
  { host with base := Entry.listBare host.base, routes := host.routes.map Route.bare }

def Application.bare (app : Application α) : Application α :=
  { app with hosts := app.hosts.map Host.bare }

/-- The registration with the handler of its endpoint alone. -/
def Registration.bare (registration : Registration α) : Registration α :=
  registration.withChain fun chain => chain.getLast?.toList

/-! ### The walk over a tree without middleware -/

def Walk.bare (walk : Walk α) : Walk α :=
  { walk with middleware := [], backend := walk.backend.map (List.map .bare) }

namespace Walk

theorem note_bare (host : Host α) (endpoint : Endpoint α) (walk : Walk α) :
    walk.bare.note host.bare endpoint = (walk.note host endpoint).bare := by
  unfold note register
  cases endpoint.handler? with
  | none => rfl
  | some handler =>
      cases held : walk.backend <;>
        simp [bare, held, chain, Host.bare, Registration.bare, Registration.withChain]

theorem visitEndpoint_bare (settings : Settings) (host : Host α) (endpoint : Endpoint α)
    (walk : Walk α) : walk.bare.visitEndpoint settings host.bare endpoint =
      (walk.visitEndpoint settings host endpoint).map bare := by
  rw [visitEndpoint_eq, visitEndpoint_eq]
  have emitted : walk.bare.emitted = walk.emitted := rfl
  have located : walk.bare.addLocation settings endpoint =
      (walk.addLocation settings endpoint).bare := rfl
  rw [emitted, located, note_bare, note_bare]
  cases walk.emitted.lookup (locationPath endpoint.pathname) with
  | none => rfl
  | some first =>
      dsimp only
      split <;> rfl

theorem visitEntries_append (settings : Settings) (host : Host α) (depth : Nat) (walk : Walk α)
    (front rest : List (Entry α)) :
    walk.visitEntries settings host depth (front ++ rest) =
      walk.visitEntries settings host depth front >>= fun after =>
        after.visitEntries settings host depth rest := by
  induction front generalizing walk with
  | nil => rfl
  | cons first others ih =>
      rw [List.cons_append, visitEntries, visitEntries]
      cases walk.visitEntry settings host depth first with
      | error failure => rfl
      | ok after => exact ih after

theorem visitEntries_singleton (settings : Settings) (host : Host α) (depth : Nat)
    (walk : Walk α) (entry : Entry α) :
    walk.visitEntries settings host depth [entry] = walk.visitEntry settings host depth entry := by
  rw [visitEntries]
  cases walk.visitEntry settings host depth entry <;> rfl

mutual

theorem visitEntry_bare (settings : Settings) (host : Host α) (depth : Nat) (walk : Walk α) :
    (entry : Entry α) →
    walk.bare.visitEntries settings host.bare depth entry.bare?.toList =
      (walk.visitEntry settings host depth entry).map bare
  | .endpoint declared => by
      rw [Entry.bare?, Option.toList_some, visitEntries_singleton, visitEntry, visitEntry]
      exact visitEndpoint_bare settings host declared walk
  | .middleware declared => rfl
  | .route pathname entries => by
      rw [Entry.bare?, Option.toList_some, visitEntries_singleton, visitEntry, visitEntry,
        visitEntries_bare settings host (depth + 1) walk entries]
      by_cases deep : settings.maxRouteDepth < depth + 1
      · rw [if_pos deep, if_pos deep]
        rfl
      · rw [if_neg deep, if_neg deep, except_map_map, except_map_map]
        rfl

theorem visitEntries_bare (settings : Settings) (host : Host α) (depth : Nat) (walk : Walk α) :
    (entries : List (Entry α)) →
    walk.bare.visitEntries settings host.bare depth (Entry.listBare entries) =
      (walk.visitEntries settings host depth entries).map bare
  | [] => rfl
  | entry :: rest => by
      rw [Entry.listBare, visitEntries_append, visitEntry_bare settings host depth walk entry,
        visitEntries]
      cases walk.visitEntry settings host depth entry with
      | error failure => rfl
      | ok after => exact visitEntries_bare settings host depth after rest

end

theorem listBare_toEntry (routes : List (Route α)) :
    Entry.listBare (routes.map Route.toEntry) = (routes.map Route.bare).map Route.toEntry := by
  induction routes with
  | nil => rfl
  | cons route routes ih =>
      rw [List.map_cons, List.map_cons, List.map_cons, ← ih]
      rfl

theorem visitHost_bare (settings : Settings) (host : Host α) (walk : Walk α) :
    walk.bare.visitHost settings host.bare = (walk.visitHost settings host).map bare := by
  unfold visitHost
  have base := visitEntries_bare settings host 0 walk host.base
  have routes (after : Walk α) :=
    visitEntries_bare settings host 0 after (host.routes.map Route.toEntry)
  simp only [listBare_toEntry] at routes
  change (do
    let base ← walk.bare.visitEntries settings host.bare 0 (Entry.listBare host.base)
    base.visitEntries settings host.bare 0 ((host.routes.map Route.bare).map Route.toEntry)) = _
  rw [base]
  cases walk.visitEntries settings host 0 host.base with
  | error failure => rfl
  | ok after => exact routes after

end Walk

namespace Compilation

def Progress.bare (progress : Progress α) : Progress α :=
  { progress with backend := progress.backend.map (List.map .bare) }

def bare (compilation : Compilation α) : Compilation α :=
  { compilation with backend := compilation.backend.map (List.map .bare) }

theorem Progress.visitHost_bare (settings : Settings) (progress : Progress α) (host : Host α) :
    progress.bare.visitHost settings host.bare = (progress.visitHost settings host).map bare := by
  have visited := Walk.visitHost_bare settings host (progress.walk settings host)
  change (do
    let walk ← Walk.visitHost settings host.bare (progress.walk settings host).bare
    _) = Except.map bare (do
    let walk ← Walk.visitHost settings host (progress.walk settings host)
    _)
  rw [visited]
  cases Walk.visitHost settings host (progress.walk settings host) <;> rfl

/-- To leave the middleware out before the compilation, or the chains but for their ends after
it, is the same. -/
theorem build_bare (settings : Settings) (app : Application α) :
    build settings Dispatch.backend app.bare =
      (build settings Dispatch.backend app).map bare := by
  have visited := foldlM_map_of_step (Progress.visitHost_bare settings) app.hosts
    (Progress.start settings)
  change (do
    let progress ← (app.hosts.map Host.bare).foldlM (Progress.visitHost settings)
      (Progress.start settings).bare
    _) = Except.map bare (do
    let progress ← app.hosts.foldlM (Progress.visitHost settings) (Progress.start settings)
    _)
  rw [visited]
  cases app.hosts.foldlM (Progress.visitHost settings) (Progress.start settings) with
  | error failure => rfl
  | ok progress =>
      simp only [Except.map, bind, Except.bind]
      have held : progress.bare.backend = progress.backend.map (List.map .bare) := rfl
      rw [held]
      cases progress.backend with
      | none => rfl
      | some registrations =>
          have checked : Dispatch.backend.check (registrations.map .bare) =
              Dispatch.backend.check registrations :=
            Dispatch.check_withChain (fun chain => chain.getLast?.toList) registrations
          dsimp only [Option.map_some]
          rw [checked]
          cases Dispatch.backend.check registrations <;> rfl

/-! ### What is registered -/

theorem chain_of_build {settings : Settings} {backend : Backend α} {app : Application α}
    {compilation : Compilation α} (compiled : build settings backend app = .ok compilation)
    {registration : Registration α} (member : registration ∈ compilation.backend.getD []) :
    ∃ handler, registration.chain.getLast? = some handler := by
  rw [build_registrations compiled, List.mem_flatMap] at member
  obtain ⟨host, _, registered⟩ := member
  obtain ⟨position, _, given⟩ := List.mem_filterMap.mp registered
  rw [Walk.registration?, Option.map_eq_some_iff] at given
  obtain ⟨handler, _, rfl⟩ := given
  exact ⟨handler, List.getLast?_concat⟩

theorem fields_of_bare {one other : Registration α} (same : one.bare = other.bare) :
    one.hostname = other.hostname ∧ one.port = other.port ∧ one.pathname = other.pathname ∧
      one.verbs = other.verbs ∧ one.chain.getLast? = other.chain.getLast? := by
  simp only [Registration.bare, Registration.withChain, Registration.mk.injEq] at same
  obtain ⟨hostname, port, pathname, verbs, last⟩ := same
  have heads := congrArg List.head? last
  rw [Option.head?_toList, Option.head?_toList] at heads
  exact ⟨hostname, port, pathname, verbs, heads⟩

theorem forall₂_of_bare {compilation other : Compilation α}
    (same : compilation.bare.backend = other.bare.backend) :
    List.Forall₂ (fun one another => Registration.bare one = another.bare)
      (compilation.backend.getD []) (other.backend.getD []) := by
  have listed := congrArg (Option.getD · []) same
  have moved (backend : Option (List (Registration α))) :
      (backend.map (List.map Registration.bare)).getD [] =
        (backend.getD []).map Registration.bare := by
    cases backend <;> rfl
  change (compilation.backend.map _).getD [] = (other.backend.map _).getD [] at listed
  rw [moved, moved, ← List.forall₂_eq_eq_eq] at listed
  exact List.forall₂_map_left_iff.mp (List.forall₂_map_right_iff.mp listed)

/-- Applications that are the same without their middleware fail to compile for the same reason,
or have the same configuration, the same aliases and as many registrations.  These are for the
same endpoints in the same order, and their chains end with the same handlers. -/
theorem middleware_leaves_configuration {settings : Settings} {left right : Application α}
    (alike : left.bare = right.bare) :
    (∀ error, build settings Dispatch.backend left = .error error ↔
      build settings Dispatch.backend right = .error error) ∧
    ∀ compilation, build settings Dispatch.backend left = .ok compilation →
      ∃ other, build settings Dispatch.backend right = .ok other ∧
        compilation.render = other.render ∧
        compilation.aliases = other.aliases ∧
        compilation.registrations = other.registrations ∧
        List.Forall₂ (fun one another =>
          one.hostname = another.hostname ∧ one.port = another.port ∧
          one.pathname = another.pathname ∧ one.verbs = another.verbs ∧
          ∃ handler, one.chain.getLast? = some handler ∧ another.chain.getLast? = some handler)
          (compilation.backend.getD []) (other.backend.getD []) := by
  have same := (build_bare settings left).symm.trans
    ((congrArg (build settings Dispatch.backend) alike).trans (build_bare settings right))
  cases compiledLeft : build settings Dispatch.backend left with
  | error failure =>
      cases compiledRight : build settings Dispatch.backend right with
      | error other =>
          rw [compiledLeft, compiledRight] at same
          cases same
          exact ⟨fun _ => Iff.rfl, nofun⟩
      | ok other =>
          rw [compiledLeft, compiledRight] at same
          cases same
  | ok compilation =>
      cases compiledRight : build settings Dispatch.backend right with
      | error other =>
          rw [compiledLeft, compiledRight] at same
          cases same
      | ok other =>
          rw [compiledLeft, compiledRight] at same
          have fields := Except.ok.inj same
          simp only [bare, mk.injEq] at fields
          obtain ⟨config, backend, aliases, registrations, _⟩ := fields
          refine ⟨by simp, ?_⟩
          intro _ given
          cases given
          refine ⟨other, rfl, congrArg Nginx.Clause.render config, aliases, registrations, ?_⟩
          have chained := (List.forall₂_and_left _ _).mpr
            ⟨fun _ => chain_of_build compiledLeft, forall₂_of_bare backend⟩
          refine chained.imp ?_
          rintro one another ⟨⟨handler, last⟩, alike⟩
          obtain ⟨hostname, port, pathname, verbs, lasts⟩ := fields_of_bare alike
          exact ⟨hostname, port, pathname, verbs, handler, last, lasts.symm.trans last⟩

/-- Middleware in the base, in routes, and behind everything it could guard. -/
def guarded : Application Nat := {
  hosts := [{
    hostname := "a.test"
    options := {}
    base := [.middleware ⟨"*", 10⟩, .endpoint ⟨"/users/:id", .single .get, .process 1⟩]
    routes := [⟨"/api", [
      .endpoint ⟨"/api/about", .single .get, .file "pages/about.html"⟩,
      .route "/api/v1" [.middleware ⟨"/api", 20⟩, .endpoint ⟨"/api/v1*", .every, .process 2⟩],
      .middleware ⟨"*", 30⟩]⟩] }] }

def unguarded : Application Nat := {
  hosts := [{
    hostname := "a.test"
    options := {}
    base := [.endpoint ⟨"/users/:id", .single .get, .process 1⟩]
    routes := [⟨"/api", [
      .middleware ⟨"/elsewhere", 40⟩,
      .endpoint ⟨"/api/about", .single .get, .file "pages/about.html"⟩,
      .route "/api/v1" [.endpoint ⟨"/api/v1*", .every, .process 2⟩]]⟩] }] }

theorem middleware_leaves_configuration_guarded :
    guarded.bare = unguarded.bare ∧
    ∃ compilation other, build {} Dispatch.backend guarded = .ok compilation ∧
      build {} Dispatch.backend unguarded = .ok other ∧
      compilation.render = other.render ∧ other.registrations = 2 ∧
      (compilation.backend.getD []).map Registration.chain = [[10, 1], [10, 20, 2]] ∧
      (other.backend.getD []).map Registration.chain = [[1], [2]] := by
  have alike : guarded.bare = unguarded.bare := rfl
  have succeeds : (build {} Dispatch.backend guarded).isOk = true := by decide +kernel
  obtain ⟨compilation, compiled⟩ := (isOk_iff_exists _).mp succeeds
  obtain ⟨other, again, rendered, _, counted, _⟩ :=
    (middleware_leaves_configuration alike).2 compilation compiled
  refine ⟨alike, compilation, other, compiled, again, rendered, ?_, ?_, ?_⟩
  · rw [(build_tally again).registered, build_registrations again]
    decide +kernel
  · rw [build_registrations compiled]
    decide +kernel
  · rw [build_registrations again]
    decide +kernel

end Compilation

end VirtualHosts
