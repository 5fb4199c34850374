/-
Runs of declarations, and the calls that they consist of.

What a run adds to a route or a host is one entry for each declaration that succeeds, in
their order.  A route keeps its entries in one list, a host in two; the calls of a run are
told apart from both, in the order of time.
-/

import VirtualHosts.Application
import VirtualHosts.Proofs.Sequence

namespace VirtualHosts

variable {α : Type}

/-- A call that declares an endpoint or middleware, on a host itself at depth zero, or in so many
routes inside each other. -/
inductive Call (α : Type) where
  | endpoint (depth : Nat) (declared : Endpoint α)
  | middleware (depth : Nat) (declared : Middleware α)

namespace Entry

def route? : Entry α → Option (Route α)
  | .route pathname entries => some ⟨pathname, entries⟩
  | .endpoint _ | .middleware _ => none

/-- The entries that stand in the base of a host. -/
def besideRoutes (entries : List (Entry α)) : List (Entry α) :=
  entries.filter (·.route?.isNone)

theorem besideRoutes_append (left right : List (Entry α)) :
    besideRoutes (left ++ right) = besideRoutes left ++ besideRoutes right :=
  List.filter_append left right

def call? (depth : Nat) : Entry α → Option (Call α)
  | .endpoint declared => some (.endpoint depth declared)
  | .middleware declared => some (.middleware depth declared)
  | .route _ _ => none

mutual

def calls (depth : Nat) : Entry α → List (Call α)
  | .endpoint declared => [.endpoint depth declared]
  | .middleware declared => [.middleware depth declared]
  | .route _ entries => listCalls (depth + 1) entries

def listCalls (depth : Nat) : List (Entry α) → List (Call α)
  | [] => []
  | entry :: rest => entry.calls depth ++ listCalls depth rest

end

end Entry

namespace Declaration

/-- The entries that declarations add, one for each that succeeds. -/
def added (pathname : String) (declarations : List (Declaration α)) : List (Entry α) :=
  declarations.filterMap fun declaration => (make pathname declaration).1.toOption

mutual

/-- The calls that declare something, in the order of time.  A call that fails declares nothing,
and neither does a route that is not added. -/
def calls (parent : String) (depth : Nat) : Declaration α → List (Call α)
  | .route suffix lenient body =>
      match (make parent (.route suffix lenient body)).1 with
      | .ok _ => listCalls (parent ++ suffix) (depth + 1) body
      | .error _ => []
  | declaration =>
      match (make parent declaration).1 with
      | .ok entry => (entry.call? depth).toList
      | .error _ => []

def listCalls (pathname : String) (depth : Nat) : List (Declaration α) → List (Call α)
  | [] => []
  | declaration :: rest => calls pathname depth declaration ++ listCalls pathname depth rest

end

/-! ### What a body adds to its route -/

theorem added_cons (pathname : String) (declaration : Declaration α)
    (rest : List (Declaration α)) :
    added pathname (declaration :: rest) =
      (make pathname declaration).1.toOption.toList ++ added pathname rest := by
  rw [added, List.filterMap_cons]
  cases (make pathname declaration).1.toOption <;> rfl

/-- A body that is not stopped leaves the entries of its route, and behind them what it adds. -/
theorem makeAll_entries (pathname : String) (lenient : Bool) (declarations : List (Declaration α))
    (entries : List (Entry α))
    (finished : (makeAll pathname lenient entries declarations).2.2 = none) :
    (makeAll pathname lenient entries declarations).1 =
      entries ++ added pathname declarations := by
  induction declarations generalizing entries with
  | nil =>
      rw [makeAll, added, List.filterMap_nil, List.append_nil]
  | cons declaration rest ih =>
      rw [makeAll] at finished ⊢
      rw [added_cons]
      cases made : make pathname declaration with
      | mk result inner =>
          rw [made] at finished
          cases result with
          | ok entry =>
              have tail := ih (entries ++ [entry]) finished
              rw [List.append_assoc] at tail
              exact tail
          | error failure =>
              cases lenient with
              | false => cases finished
              | true => exact ih entries finished

theorem make_route (parent suffix : String) (lenient : Bool) (body : List (Declaration α))
    {entry : Entry α} (made : (make parent (.route suffix lenient body)).1 = .ok entry) :
    entry = .route (parent ++ suffix) (added (parent ++ suffix) body) := by
  rw [make] at made
  have entries := makeAll_entries (parent ++ suffix) lenient body []
  cases ran : makeAll (parent ++ suffix) lenient [] body with
  | mk final others =>
      cases others with
      | mk outcomes failure =>
          rw [ran] at made entries
          cases failure with
          | some failure => cases made
          | none =>
              cases made
              exact congrArg (Entry.route (parent ++ suffix)) (entries rfl)

/-! ### The calls of a run are those of its entries -/

mutual

theorem calls_eq (parent : String) (depth : Nat) : (declaration : Declaration α) →
    calls parent depth declaration =
      ((make parent declaration).1.toOption.map (Entry.calls depth)).getD []
  | .route suffix lenient body => by
      rw [calls]
      cases made : (make parent (.route suffix lenient body)).1 with
      | error failure => rfl
      | ok entry =>
          rw [make_route parent suffix lenient body made]
          exact listCalls_eq (parent ++ suffix) (depth + 1) body
  | .endpoint verbs given => by
      rw [calls, make]
      · cases Endpoint.under parent verbs given <;> rfl
      · nofun
  | .named names given => by
      rw [calls, make]
      · cases VerbSet.ofNames names with
        | error failure => rfl
        | ok verbs =>
            simp only [bind, Except.bind]
            cases Endpoint.under parent verbs given <;> rfl
      · nofun
  | .directory pathname path => by
      rw [calls, make]
      · cases Endpoint.under parent (.single .static) (.sorted ⟨pathname, [.file path]⟩) <;> rfl
      · nofun
  | .middleware given => by
      rw [calls, make]
      · cases Middleware.under parent given <;> rfl
      · nofun

theorem listCalls_eq (pathname : String) (depth : Nat) :
    (declarations : List (Declaration α)) →
    listCalls pathname depth declarations =
      Entry.listCalls depth (added pathname declarations)
  | [] => rfl
  | declaration :: rest => by
      rw [listCalls, calls_eq pathname depth declaration, listCalls_eq pathname depth rest,
        added_cons]
      cases (make pathname declaration).1.toOption <;> rfl

end

end Declaration

/-! ### Runs on a host -/

theorem Host.push_eq (host : Host α) (entry : Entry α) :
    host.push entry = { host with
      base := host.base ++ Entry.besideRoutes [entry]
      routes := host.routes ++ entry.route?.toList } := by
  cases entry with
  | endpoint declared =>
      rw [Host.push, Entry.route?, Option.toList_none, List.append_nil]
      · rfl
      · nofun
  | middleware declared =>
      rw [Host.push, Entry.route?, Option.toList_none, List.append_nil]
      · rfl
      · nofun
  | route pathname entries =>
      have base : Entry.besideRoutes [Entry.route pathname entries] = [] := rfl
      rw [base, List.append_nil]
      rfl

/-- A run puts what it adds at the end: routes behind the routes, all else behind the base. -/
theorem Host.declareAll_eq (host : Host α) (declarations : List (Declaration α)) :
    (host.declareAll declarations).1 = { host with
      base := host.base ++ Entry.besideRoutes (Declaration.added "" declarations)
      routes := host.routes ++ (Declaration.added "" declarations).filterMap Entry.route? } := by
  induction declarations generalizing host with
  | nil => simp [Host.declareAll, Declaration.added, Entry.besideRoutes]
  | cons declaration rest ih =>
      rw [Host.declareAll, Declaration.added_cons]
      cases made : declaration.make "" with
      | mk result inner =>
          cases result with
          | error failure => exact ih host
          | ok entry =>
              change ((host.push entry).declareAll rest).1 = _
              have routes : [entry].filterMap Entry.route? = entry.route?.toList := by
                cases entry <;> rfl
              rw [ih (host.push entry), Host.push_eq]
              simp only [Except.toOption, Option.toList_some, Entry.besideRoutes_append,
                List.filterMap_append, routes, List.append_assoc]

/-- A host as it is declared: the name and options that it is opened with, and the declarations
made on it. -/
structure HostRun (α : Type) where
  hostname : String
  options : HostOptions
  declarations : List (Declaration α)

namespace HostRun

def host? (run : HostRun α) : Except DeclarationError (Host α) :=
  (Host.declare run.hostname run.options).map fun host =>
    (host.declareAll run.declarations).1

def calls (run : HostRun α) : List (Call α) :=
  Declaration.listCalls "" 0 run.declarations

theorem host?_eq_ok {run : HostRun α} {host : Host α} (made : run.host? = .ok host) :
    host.hostname = run.hostname ∧ host.options = run.options ∧
      host.base = Entry.besideRoutes (Declaration.added "" run.declarations) ∧
      host.routes = (Declaration.added "" run.declarations).filterMap Entry.route? := by
  obtain ⟨fresh, opened, rfl⟩ := map_eq_ok_iff.mp made
  unfold Host.declare at opened
  split at opened
  · cases opened
  · cases opened
    rw [Host.declareAll_eq]
    exact ⟨rfl, rfl, rfl, rfl⟩

end HostRun

end VirtualHosts
