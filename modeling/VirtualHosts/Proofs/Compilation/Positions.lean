/-
Positions in the declared tree, and the middleware in scope at each.

A position is told by what stands in front of it: the entries before it in its own
list, and before every route on the way down to it.  The middleware in scope is read
off those entries alone.  The walk comes to the same: the visits of a host are its
positions in order, each with the middleware in scope there.
-/

import VirtualHosts.Proofs.Compilation.Visits

namespace VirtualHosts

/-- An endpoint in a tree, with the entries in front of it in every list on the way down,
the outermost list first. -/
structure Position (α : Type) where
  before : List (List (Entry α))
  endpoint : Endpoint α

namespace Position

variable {α : Type}

def behind (before : List (Entry α)) (position : Position α) : Position α :=
  { position with before := before :: position.before }

/-- The middleware in scope: what stands in front of the position in its own list, and in
front of every route around it. -/
def scope (position : Position α) : List (Middleware α) :=
  position.before.flatMap Entry.middlewareOf

@[simp] theorem behind_endpoint (before : List (Entry α)) (position : Position α) :
    (position.behind before).endpoint = position.endpoint := rfl

@[simp] theorem behind_scope (before : List (Entry α)) (position : Position α) :
    (position.behind before).scope = Entry.middlewareOf before ++ position.scope := rfl

end Position

namespace Entry

variable {α : Type}

mutual

def positions : Entry α → List (Position α)
  | .endpoint declared => [⟨[], declared⟩]
  | .middleware _ => []
  | .route _ entries => listPositions [] entries

def listPositions (before : List (Entry α)) : List (Entry α) → List (Position α)
  | [] => []
  | entry :: rest =>
      entry.positions.map (·.behind before) ++ listPositions (before ++ [entry]) rest

end

/-- A position among entries: an endpoint of the list itself, or a position in one of its
routes. -/
inductive Holds : List (Entry α) → Position α → Prop where
  | endpoint (before after : List (Entry α)) (declared : Endpoint α) :
      Holds (before ++ .endpoint declared :: after) ⟨[before], declared⟩
  | route (before after : List (Entry α)) (pathname : String) {entries : List (Entry α)}
      {position : Position α} : Holds entries position →
      Holds (before ++ .route pathname entries :: after) (position.behind before)

mutual

def declaredMiddleware : Entry α → List (Middleware α)
  | .endpoint _ => []
  | .middleware declared => [declared]
  | .route _ entries => listDeclaredMiddleware entries

def listDeclaredMiddleware : List (Entry α) → List (Middleware α)
  | [] => []
  | entry :: rest => entry.declaredMiddleware ++ listDeclaredMiddleware rest

end

end Entry

namespace Host

variable {α : Type}

/-- The positions in a host: those of its base, then those of its routes, which stand behind
the whole base. -/
def positions (host : Host α) : List (Position α) :=
  Entry.listPositions [] host.base ++
    host.routes.flatMap fun route =>
      (Entry.listPositions [] route.entries).map (·.behind host.base)

inductive Holds (host : Host α) : Position α → Prop where
  | base {position : Position α} : Entry.Holds host.base position → Holds host position
  | route {route : Route α} {position : Position α} : route ∈ host.routes →
      Entry.Holds route.entries position → Holds host (position.behind host.base)

def declaredMiddleware (host : Host α) : List (Middleware α) :=
  Entry.listDeclaredMiddleware host.base ++
    host.routes.flatMap fun route => Entry.listDeclaredMiddleware route.entries

end Host

namespace Entry

variable {α : Type}

theorem middlewareOf_append (left right : List (Entry α)) :
    middlewareOf (left ++ right) = middlewareOf left ++ middlewareOf right :=
  List.filterMap_append

/-! ### Every endpoint has one position -/

mutual

theorem positions_endpoints : (entry : Entry α) →
    entry.positions.map Position.endpoint = entry.endpoints
  | .endpoint _ => rfl
  | .middleware _ => rfl
  | .route _ entries => listPositions_endpoints [] entries

theorem listPositions_endpoints (before : List (Entry α)) : (entries : List (Entry α)) →
    (listPositions before entries).map Position.endpoint = listEndpoints entries
  | [] => rfl
  | entry :: rest => by
      rw [listPositions, listEndpoints, List.map_append, List.map_map,
        listPositions_endpoints (before ++ [entry]) rest]
      congr 1
      exact positions_endpoints entry

end

/-! ### Positions as they are counted and as they are described -/

mutual

theorem holds_of_mem_positions : (entry : Entry α) → ∀ position ∈ entry.positions,
    ∀ before after, Holds (before ++ entry :: after) (position.behind before)
  | .endpoint declared => by
      intro position member before after
      rw [positions, List.mem_singleton] at member
      subst member
      exact .endpoint before after declared
  | .middleware _ => by
      intro position member
      cases member
  | .route pathname entries => by
      intro position member before after
      exact .route before after pathname (holds_of_mem_listPositions [] entries position member)

theorem holds_of_mem_listPositions (before : List (Entry α)) : (entries : List (Entry α)) →
    ∀ position ∈ listPositions before entries, Holds (before ++ entries) position
  | [] => by
      intro position member
      cases member
  | entry :: rest => by
      intro position member
      rw [listPositions, List.mem_append] at member
      rcases member with inside | later
      · obtain ⟨inner, counted, rfl⟩ := List.mem_map.mp inside
        exact holds_of_mem_positions entry inner counted before rest
      · have found := holds_of_mem_listPositions (before ++ [entry]) rest position later
        rwa [List.append_assoc] at found

end

theorem mem_listPositions_of_mem_positions (first before after : List (Entry α))
    (entry : Entry α) {position : Position α} (counted : position ∈ entry.positions) :
    position.behind (first ++ before) ∈ listPositions first (before ++ entry :: after) := by
  induction before generalizing first with
  | nil =>
      rw [List.append_nil, List.nil_append, listPositions, List.mem_append]
      exact Or.inl (List.mem_map.mpr ⟨position, counted, rfl⟩)
  | cons skipped before ih =>
      rw [List.cons_append, listPositions, List.mem_append]
      have later := ih (first ++ [skipped])
      rw [List.append_assoc] at later
      exact Or.inr later

theorem mem_listPositions_of_holds {entries : List (Entry α)} {position : Position α}
    (holds : Holds entries position) : position ∈ listPositions [] entries := by
  induction holds with
  | endpoint before after declared =>
      have own : ⟨[], declared⟩ ∈ (Entry.endpoint declared).positions := List.mem_cons_self
      exact mem_listPositions_of_mem_positions [] before after (.endpoint declared) own
  | route before after pathname _ ih =>
      exact mem_listPositions_of_mem_positions [] before after (.route pathname _) ih

theorem mem_listPositions_iff (entries : List (Entry α)) (position : Position α) :
    position ∈ listPositions [] entries ↔ Holds entries position :=
  ⟨holds_of_mem_listPositions [] entries position, mem_listPositions_of_holds⟩

/-! ### Scopes are chosen from what is declared -/

theorem listDeclaredMiddleware_append (left right : List (Entry α)) :
    listDeclaredMiddleware (left ++ right) =
      listDeclaredMiddleware left ++ listDeclaredMiddleware right := by
  induction left with
  | nil => rfl
  | cons entry left ih =>
      rw [List.cons_append, listDeclaredMiddleware, ih, listDeclaredMiddleware, List.append_assoc]

theorem middlewareOf_sublist (entries : List (Entry α)) :
    (middlewareOf entries).Sublist (listDeclaredMiddleware entries) := by
  induction entries with
  | nil => exact List.Sublist.slnil
  | cons entry rest ih =>
      cases entry with
      | endpoint declared => exact ih
      | middleware declared => exact ih.cons_cons declared
      | route pathname inner => exact ih.trans (List.sublist_append_right _ _)

theorem Holds.scope_sublist {entries : List (Entry α)} {position : Position α}
    (holds : Holds entries position) :
    position.scope.Sublist (listDeclaredMiddleware entries) := by
  induction holds with
  | endpoint before after declared =>
      rw [listDeclaredMiddleware_append]
      refine List.Sublist.trans ?_ (List.sublist_append_left _ _)
      simpa [Position.scope] using middlewareOf_sublist before
  | route before after pathname _ ih =>
      rw [listDeclaredMiddleware_append, listDeclaredMiddleware, Position.behind_scope]
      exact (middlewareOf_sublist before).append
        (ih.trans (List.sublist_append_left _ _))

/-! ### The visits are the positions in order -/

mutual

theorem visits_met (depth : Nat) (scope : List (Middleware α)) : (entry : Entry α) →
    (entry.visits depth scope).filterMap Visit.met? =
      entry.positions.map fun position => (scope ++ position.scope, position.endpoint)
  | .endpoint declared => by
      simp [visits, positions, Visit.met?, Position.scope]
  | .middleware _ => rfl
  | .route pathname entries => by
      have inner := listVisits_met (depth + 1) scope [] entries
      rw [middlewareOf, List.filterMap_nil, List.append_nil] at inner
      exact inner

theorem listVisits_met (depth : Nat) (scope : List (Middleware α)) (before : List (Entry α)) :
    (entries : List (Entry α)) →
    (listVisits depth (scope ++ middlewareOf before) entries).filterMap Visit.met? =
      (listPositions before entries).map fun position =>
        (scope ++ position.scope, position.endpoint)
  | [] => rfl
  | entry :: rest => by
      -- A route among the entries before is closed: it adds nothing to the scope.
      have scopes : scope ++ middlewareOf before ++ entry.middleware?.toList =
          scope ++ middlewareOf (before ++ [entry]) := by
        rw [middlewareOf_append, List.append_assoc]
        cases entry <;> rfl
      rw [listVisits, listPositions, List.filterMap_append, List.map_append, List.map_map, scopes,
        visits_met depth (scope ++ middlewareOf before) entry,
        listVisits_met depth scope (before ++ [entry]) rest]
      congr 1
      refine List.map_congr_left fun position _ => ?_
      simp

end

end Entry

namespace Host

variable {α : Type}

theorem positions_endpoints (host : Host α) :
    host.positions.map Position.endpoint = host.endpoints := by
  rw [positions, endpoints, List.map_append, Entry.listPositions_endpoints, List.map_flatMap]
  congr 2
  funext route
  rw [List.map_map]
  exact Entry.listPositions_endpoints [] route.entries

theorem mem_positions_iff (host : Host α) (position : Position α) :
    position ∈ host.positions ↔ host.Holds position := by
  rw [positions, List.mem_append, Entry.mem_listPositions_iff, List.mem_flatMap]
  constructor
  · intro either
    rcases either with inBase | ⟨route, declared, inRoute⟩
    · exact .base inBase
    · obtain ⟨inner, counted, rfl⟩ := List.mem_map.mp inRoute
      exact .route declared ((Entry.mem_listPositions_iff _ _).mp counted)
  · intro holds
    cases holds with
    | base inBase => exact Or.inl inBase
    | route declared inRoute =>
        exact Or.inr ⟨_, declared,
          List.mem_map.mpr ⟨_, (Entry.mem_listPositions_iff _ _).mpr inRoute, rfl⟩⟩

/-- The middleware in scope at a position is chosen, in order, from all that is declared on the
host. -/
theorem Holds.scope_sublist {host : Host α} {position : Position α}
    (holds : host.Holds position) : position.scope.Sublist host.declaredMiddleware := by
  cases holds with
  | base inBase => exact inBase.scope_sublist.trans (List.sublist_append_left _ _)
  | @route route _ declared inRoute =>
      rw [Position.behind_scope]
      refine (Entry.middlewareOf_sublist host.base).append (inRoute.scope_sublist.trans ?_)
      obtain ⟨first, last, split⟩ := List.append_of_mem declared
      rw [split, List.flatMap_append, List.flatMap_cons]
      exact (List.sublist_append_left _ _).trans (List.sublist_append_right _ _)

/-- The walk meets the endpoints of a host at their positions, under the middleware in
scope. -/
theorem visits_met (host : Host α) :
    host.visits.filterMap Visit.met? =
      host.positions.map fun position => (position.scope, position.endpoint) := by
  have base := Entry.listVisits_met 0 [] [] host.base
  rw [Entry.middlewareOf, List.filterMap_nil, List.append_nil] at base
  have routes (declared : List (Route α)) :
      (Entry.listVisits 0 (Entry.middlewareOf host.base)
          (declared.map Route.toEntry)).filterMap Visit.met? =
        (declared.flatMap fun route =>
          (Entry.listPositions [] route.entries).map (·.behind host.base)).map
            fun position => (position.scope, position.endpoint) := by
    induction declared with
    | nil => rfl
    | cons route declared ih =>
        rw [List.map_cons, Entry.listVisits, List.filterMap_append, List.flatMap_cons,
          List.map_append, List.map_map]
        congr 1
        · exact Entry.visits_met 0 (Entry.middlewareOf host.base) route.toEntry
        · rw [Route.toEntry, Entry.middleware?, Option.toList_none, List.append_nil]
          exact ih
  rw [visits, positions, List.filterMap_append, List.map_append, base, routes]
  rfl

end Host

end VirtualHosts
