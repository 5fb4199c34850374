/-
The walk over a host as a run over its visits.

The depth of every route and the middleware in force at every endpoint depend on
the declared tree alone.  Written down in front, they leave a flat list of visits,
and the walk is a fold over it.  An error of the walk is the error of a visit.
-/

import VirtualHosts.Compilation
import VirtualHosts.Proofs.Sequence

namespace VirtualHosts

/-- A step of the walk: a route is entered at some depth, or an endpoint is met
under the middleware in force. -/
inductive Visit (α : Type) where
  | route (depth : Nat) (pathname : String)
  | endpoint (scope : List (Middleware α)) (declared : Endpoint α)

namespace Visit

variable {α : Type}

def met? : Visit α → Option (List (Middleware α) × Endpoint α)
  | route _ _ => none
  | endpoint scope declared => some (scope, declared)

end Visit

namespace Entry

variable {α : Type}

def middleware? : Entry α → Option (Middleware α)
  | .middleware declared => some declared
  | .endpoint _ | .route _ _ => none

/-- The middleware among some entries.  That of their routes has ended. -/
def middlewareOf (entries : List (Entry α)) : List (Middleware α) :=
  entries.filterMap middleware?

mutual

def visits (depth : Nat) (scope : List (Middleware α)) : Entry α → List (Visit α)
  | .endpoint declared => [.endpoint scope declared]
  | .middleware _ => []
  | .route pathname entries =>
      .route (depth + 1) pathname :: listVisits (depth + 1) scope entries

def listVisits (depth : Nat) (scope : List (Middleware α)) : List (Entry α) → List (Visit α)
  | [] => []
  | entry :: rest =>
      entry.visits depth scope ++ listVisits depth (scope ++ entry.middleware?.toList) rest

end

end Entry

/-- The visits of a host.  The middleware of its base is in force in its routes. -/
def Host.visits {α : Type} (host : Host α) : List (Visit α) :=
  Entry.listVisits 0 [] host.base ++
    Entry.listVisits 0 (Entry.middlewareOf host.base) (host.routes.map Route.toEntry)

namespace Walk

variable {α : Type}

def under (walk : Walk α) (scope : List (Middleware α)) : Walk α :=
  { walk with middleware := scope }

@[simp] theorem under_self (walk : Walk α) : walk.under walk.middleware = walk := rfl

def visit (settings : Settings) (host : Host α) (walk : Walk α) :
    Visit α → Except CompilationError (Walk α)
  | .route depth pathname =>
      if settings.maxRouteDepth < depth then
        .error (.nestingTooDeep pathname settings.maxRouteDepth)
      else .ok walk
  | .endpoint scope declared => (walk.under scope).visitEndpoint settings host declared

/-! ### What a visit of an endpoint does -/

def note (host : Host α) (endpoint : Endpoint α) (walk : Walk α) : Walk α :=
  { walk.register host endpoint with
    emitted := (locationPath endpoint.pathname, endpoint.mode) :: walk.emitted }

theorem handler?_eq_none_iff (endpoint : Endpoint α) :
    endpoint.handler? = none ↔ endpoint.mode ≠ .process := by
  unfold Endpoint.handler? Endpoint.mode
  cases endpoint.target with
  | file path =>
      simp only [true_iff]
      split <;> simp
  | process handler => simp

theorem visitEndpoint_eq (settings : Settings) (host : Host α) (endpoint : Endpoint α)
    (walk : Walk α) : walk.visitEndpoint settings host endpoint =
      match walk.emitted.lookup (locationPath endpoint.pathname) with
      | none => .ok ((walk.addLocation settings endpoint).note host endpoint)
      | some first =>
          if first = .process ∧ endpoint.mode = .process then .ok (walk.note host endpoint)
          else .error (.conflictingLocation host.hostname (locationPath endpoint.pathname)
            first.name endpoint.mode.name) := by
  have registered (walk : Walk α) : (if endpoint.mode = .process then
      walk.register host endpoint else walk) = walk.register host endpoint := by
    split
    · rfl
    · rename_i other
      unfold register
      rw [(handler?_eq_none_iff endpoint).mpr other]
  have emitted (walk : Walk α) : (walk.register host endpoint).emitted = walk.emitted := by
    unfold register
    split
    · rfl
    · split <;> rfl
  unfold visitEndpoint
  simp only [registered, emitted]
  rfl

/-- A visit that succeeds adds a location that is new, or repeats one that the process
answers both times. -/
theorem visitEndpoint_ok {settings : Settings} {host : Host α} {endpoint : Endpoint α}
    {walk after : Walk α} (visited : walk.visitEndpoint settings host endpoint = .ok after) :
    (walk.emitted.lookup (locationPath endpoint.pathname) = none ∧
      after = (walk.addLocation settings endpoint).note host endpoint) ∨
    (walk.emitted.lookup (locationPath endpoint.pathname) = some .process ∧
      endpoint.mode = .process ∧ after = walk.note host endpoint) := by
  rw [visitEndpoint_eq] at visited
  split at visited
  · rename_i new
    cases visited
    exact Or.inl ⟨new, rfl⟩
  · rename_i first known
    split at visited
    · rename_i both
      cases visited
      exact Or.inr ⟨both.1 ▸ known, both.2, rfl⟩
    · cases visited

def registration? (host : Host α) (scope : List (Middleware α)) (endpoint : Endpoint α) :
    Option (Registration α) :=
  endpoint.handler?.map fun handler => {
    hostname := host.hostname
    port := host.options.port
    pathname := endpoint.pathname
    verbs := endpoint.verbs
    chain := (scope.filter (·.appliesTo endpoint.pathname)).map Middleware.handler ++ [handler] }

section Fields

variable (settings : Settings) (host : Host α) (endpoint : Endpoint α) (walk : Walk α)

@[simp] theorem note_emitted : (walk.note host endpoint).emitted =
    (locationPath endpoint.pathname, endpoint.mode) :: walk.emitted := rfl

@[simp] theorem note_middleware : (walk.note host endpoint).middleware = walk.middleware := by
  unfold note register
  split
  · rfl
  · split <;> rfl

@[simp] theorem note_server : (walk.note host endpoint).server = walk.server := by
  unfold note register
  split
  · rfl
  · split <;> rfl

@[simp] theorem note_registrations : (walk.note host endpoint).backend.getD [] =
    walk.backend.getD [] ++ (registration? host walk.middleware endpoint).toList := by
  unfold note register registration? chain
  cases endpoint.handler? with
  | none => simp
  | some handler => cases walk.backend <;> simp

@[simp] theorem addLocation_middleware :
    (walk.addLocation settings endpoint).middleware = walk.middleware := rfl

@[simp] theorem addLocation_backend :
    (walk.addLocation settings endpoint).backend = walk.backend := rfl

end Fields

theorem visitEndpoint_middleware {settings : Settings} {host : Host α} {endpoint : Endpoint α}
    {walk after : Walk α} (visited : walk.visitEndpoint settings host endpoint = .ok after) :
    after.middleware = walk.middleware := by
  obtain ⟨_, rfl⟩ | ⟨_, _, rfl⟩ := visitEndpoint_ok visited
  · rw [note_middleware, addLocation_middleware]
  · rw [note_middleware]

/-! ### The walk is the run over the visits -/

/-- The middleware in force before the first visit does not matter, since every
visit brings its own. -/
theorem foldlM_visit_under (settings : Settings) (host : Host α) (visits : List (Visit α))
    (walk : Walk α) (scope final : List (Middleware α)) :
    (visits.foldlM (visit settings host) (walk.under scope)).map (·.under final) =
      (visits.foldlM (visit settings host) walk).map (·.under final) := by
  induction visits generalizing walk with
  | nil => rfl
  | cons first rest ih =>
      rw [List.foldlM_cons, List.foldlM_cons]
      cases first with
      | route depth pathname =>
          by_cases deep : settings.maxRouteDepth < depth
          · simp only [visit, if_pos deep]
          · simp only [visit, if_neg deep]
            exact ih walk
      | endpoint scope' declared => rfl

mutual

/-- The walk over an entry makes the visits of the entry, and the middleware that is
in force afterwards is the middleware before, with that of the entry itself. -/
theorem visitEntry_eq (settings : Settings) (host : Host α) (depth : Nat) (walk : Walk α) :
    (entry : Entry α) → walk.visitEntry settings host depth entry =
      ((entry.visits depth walk.middleware).foldlM (visit settings host) walk).map
        (·.under (walk.middleware ++ entry.middleware?.toList))
  | .endpoint declared => by
      simp only [visitEntry, Entry.visits, List.foldlM_cons, List.foldlM_nil, visit, under_self]
      cases visited : walk.visitEndpoint settings host declared with
      | error failure => rfl
      | ok after =>
          have kept := visitEndpoint_middleware visited
          simp only [bind, Except.bind, pure, Except.pure, Except.map, Entry.middleware?,
            Option.toList_none, List.append_nil, ← kept, under_self]
  | .middleware declared => rfl
  | .route pathname entries => by
      simp only [visitEntry, Entry.visits, List.foldlM_cons, visit]
      split
      · rfl
      · rw [visitEntries_eq settings host (depth + 1) walk entries]
        simp only [bind, Except.bind, Entry.middleware?, Option.toList_none, List.append_nil]
        cases (Entry.listVisits (depth + 1) walk.middleware entries).foldlM
          (visit settings host) walk <;> rfl

theorem visitEntries_eq (settings : Settings) (host : Host α) (depth : Nat) (walk : Walk α) :
    (entries : List (Entry α)) → walk.visitEntries settings host depth entries =
      ((Entry.listVisits depth walk.middleware entries).foldlM (visit settings host) walk).map
        (·.under (walk.middleware ++ Entry.middlewareOf entries))
  | [] => by
      simp only [visitEntries, Entry.listVisits, Entry.middlewareOf, List.filterMap_nil,
        List.append_nil, List.foldlM_nil, pure, Except.pure, Except.map, under_self]
  | entry :: rest => by
      rw [visitEntries, Entry.listVisits, List.foldlM_append,
        visitEntry_eq settings host depth walk entry]
      cases (entry.visits depth walk.middleware).foldlM (visit settings host) walk with
      | error failure => rfl
      | ok after =>
          have tail := visitEntries_eq settings host depth
            (after.under (walk.middleware ++ entry.middleware?.toList)) rest
          have scopes : Entry.middlewareOf (entry :: rest) =
              entry.middleware?.toList ++ Entry.middlewareOf rest := by
            cases entry <;> rfl
          -- The visits of the rest bring their scope along, whatever the entry has left behind.
          simp only [Except.map, bind, Except.bind]
          rw [tail, scopes, ← List.append_assoc]
          exact foldlM_visit_under settings host _ after _ _

end

theorem visitHost_eq (settings : Settings) (host : Host α) (walk : Walk α)
    (fresh : walk.middleware = []) : walk.visitHost settings host =
      (host.visits.foldlM (visit settings host) walk).map
        (·.under (Entry.middlewareOf host.base)) := by
  have routesAlone : Entry.middlewareOf (host.routes.map Route.toEntry) = [] := by
    rw [Entry.middlewareOf, List.filterMap_map, List.filterMap_eq_nil_iff]
    intro route _
    rfl
  unfold visitHost Host.visits
  rw [visitEntries_eq, fresh, List.foldlM_append]
  cases (Entry.listVisits 0 [] host.base).foldlM (visit settings host) walk with
  | error failure => rfl
  | ok after =>
      simp only [Except.map, bind, Except.bind, List.nil_append]
      rw [visitEntries_eq, routesAlone, List.append_nil]
      exact foldlM_visit_under settings host _ after _ _

end Walk

end VirtualHosts
