/-
The calls that a manifest makes.

Of what stands in a host or a route of a manifest, every endpoint is checked and then declared
by a call, and after them every route by a call whose body does the same with what stands in
it.  The first error ends all of it.  On a route and on a host, these calls leave what the
manifest is translated into.
-/

import VirtualHosts.Proofs.Declaration.Trees
import VirtualHosts.Proofs.Manifest.Endpoints

namespace VirtualHosts

variable {α σ : Type}

/-! ### Bodies on a receiver -/

theorem Host.declareAll_cons (host : Host α) (declaration : Declaration α)
    (rest : List (Declaration α)) :
    (host.declareAll (declaration :: rest)).1 =
      match (declaration.make "").1 with
      | .ok entry => ((host.push entry).declareAll rest).1
      | .error _ => (host.declareAll rest).1 := by
  rw [Host.declareAll]
  cases declaration.make "" with
  | mk result inner => cases result <;> rfl

namespace Body

/-- Runs a body on a receiver that takes in entries with `add`. -/
def runOn (add : σ → Entry α → σ) (pathname : String) (receiver : σ) :
    Body α → σ × Option DeclarationError
  | .done error => (receiver, error)
  | .call declaration next =>
      match (declaration.make pathname).1 with
      | .ok entry => (next none).runOn add pathname (add receiver entry)
      | .error failure => (next (some failure)).runOn add pathname receiver
  | .route suffix inner next =>
      match inner.run (pathname ++ suffix) [] with
      | (children, none) =>
          (next none).runOn add pathname (add receiver (.route (pathname ++ suffix) children))
      | (_, some failure) => (next (some failure)).runOn add pathname receiver

/-- The receiver after a body that ends well. -/
def finish (add : σ → Entry α → σ) (pathname : String) (receiver : σ) (body : Body α) :
    Except DeclarationError σ :=
  match body.runOn add pathname receiver with
  | (after, none) => .ok after
  | (_, some failure) => .error failure

/-- After a call that succeeds it goes on with `next`; a call that fails is the last one. -/
def orStop (next : Body α) : Option DeclarationError → Body α
  | none => next
  | some failure => .done (some failure)

/-- How a route takes in an entry. -/
def atEnd (entries : List (Entry α)) (entry : Entry α) : List (Entry α) :=
  entries ++ [entry]

theorem runOn_atEnd (pathname : String) (entries : List (Entry α)) (body : Body α) :
    body.runOn atEnd pathname entries = body.run pathname entries := by
  induction body generalizing entries with
  | done error => rfl
  | call declaration next ih =>
      rw [runOn, run]
      cases (declaration.make pathname).1 with
      | ok entry => exact ih none (entries ++ [entry])
      | error failure => exact ih (some failure) entries
  | route suffix inner next _ ih =>
      rw [runOn, run]
      cases inner.run (pathname ++ suffix) [] with
      | mk children error =>
          cases error with
          | none => exact ih none _
          | some failure => exact ih (some failure) entries

/-- A body leaves a host as its successful calls do when they are made one after another. -/
theorem runOn_push (host : Host α) (body : Body α) :
    (body.runOn Host.push "" host).1 = (host.declareAll (body.made "")).1 := by
  induction body generalizing host with
  | done error => rfl
  | call declaration next ih =>
      rw [runOn, made]
      cases result : (declaration.make "").1 with
      | ok entry =>
          simp only [Host.declareAll_cons, result]
          exact ih none (host.push entry)
      | error failure => exact ih (some failure) host
  | route suffix inner next _ ih =>
      rw [runOn, made]
      cases ran : inner.run ("" ++ suffix) [] with
      | mk children error =>
          cases error with
          | some failure => exact ih (some failure) host
          | none =>
              have left := make_route "" suffix inner
              rw [ran] at left
              simp only [Host.declareAll_cons, left]
              exact ih none _

variable (add : σ → Entry α → σ) (pathname : String) (receiver : σ)

theorem runOn_of_finish {body : Body α} {after : σ}
    (finished : body.finish add pathname receiver = .ok after) :
    body.runOn add pathname receiver = (after, none) := by
  rw [finish] at finished
  split at finished
  · rename_i left ran
    cases finished
    exact ran
  · cases finished

theorem finish_call (declaration : Declaration α) (next : Body α) :
    (call declaration next.orStop).finish add pathname receiver =
      (declaration.make pathname).1 >>= fun entry =>
        next.finish add pathname (add receiver entry) := by
  rw [finish, runOn]
  cases (declaration.make pathname).1 <;> rfl

theorem finish_route (suffix : String) (inner next : Body α) :
    (route suffix inner next.orStop).finish add pathname receiver =
      inner.finish atEnd (pathname ++ suffix) [] >>= fun children =>
        next.finish add pathname (add receiver (.route (pathname ++ suffix) children)) := by
  rw [finish, finish, runOn, runOn_atEnd]
  cases inner.run (pathname ++ suffix) [] with
  | mk children error => cases error <;> rfl

end Body

namespace Manifest

/-! ### What the calls are -/

/-- The argument of a call that stands for the target of an endpoint. -/
def EndpointSpec.argument? (spec : EndpointSpec) : Option (Argument FixedHandler) :=
  ((spec.file.map .text).or
    (spec.respond.map fun answer =>
      .callable (.respond answer.status.toNat answer.body answer.headers))).or
    (spec.redirect.map fun redirect =>
      .callable (.redirect redirect.place redirect.code.toNat))

/-- The call for an endpoint, and then those of `next`. -/
def EndpointSpec.calls (spec : EndpointSpec) (next : Body FixedHandler) : Body FixedHandler :=
  let path := spec.path.getD anyPath
  if spec.targets ≠ 1 then .done (some (.handlerCount path spec.targets))
  else
    match spec.directory with
    | some directory => .call (.directory path directory) next.orStop
    | none =>
        match spec.verbSet, spec.argument? with
        | .error error, _ => .done (some error)
        | .ok _, none => next
        | .ok verbs, some argument =>
            .call (.endpoint verbs (.plain [.text path, argument])) next.orStop

mutual

/-- The call for a route, and then those of `next`. -/
def RouteSpec.calls : RouteSpec → Body FixedHandler → Body FixedHandler
  | .mk path endpoints routes, next =>
      .route path
        (endpoints.foldr EndpointSpec.calls (RouteSpec.callsAll routes (.done none)))
        next.orStop

def RouteSpec.callsAll : List RouteSpec → Body FixedHandler → Body FixedHandler
  | [], next => next
  | spec :: rest, next => spec.calls (RouteSpec.callsAll rest next)

end

/-- The calls for all that stands in one host or route. -/
def callsFor (endpoints : List EndpointSpec) (routes : List RouteSpec) : Body FixedHandler :=
  endpoints.foldr EndpointSpec.calls (RouteSpec.callsAll routes (.done none))

/-! ### What they leave -/

section

variable (add : σ → Entry FixedHandler → σ) (pathname : String) (receiver : σ)

/-- A call for an endpoint adds what its declaration yields. -/
theorem finish_endpoint {declaration : Declaration FixedHandler}
    {declared : Except DeclarationError (Endpoint FixedHandler)}
    (made : (declaration.make pathname).1 = declared.map .endpoint)
    (next : Body FixedHandler) :
    (Body.call declaration next.orStop).finish add pathname receiver =
      declared >>= fun endpoint => next.finish add pathname (add receiver (.endpoint endpoint)) := by
  rw [Body.finish_call, made]
  cases declared <;> rfl

theorem EndpointSpec.finish_argument (spec : EndpointSpec) (argument : Argument FixedHandler)
    (single : spec.targets = 1) (unmarked : spec.directory = none)
    (given : spec.argument? = some argument) (next : Body FixedHandler) :
    (spec.calls next).finish add pathname receiver =
      (spec.verbSet >>= fun verbs =>
        Endpoint.declare (pathname ++ spec.path.getD anyPath) verbs [Arguments.target argument]) >>=
          fun endpoint => next.finish add pathname (add receiver (.endpoint endpoint)) := by
  simp only [calls, if_neg (not_not_intro single), unmarked, given]
  cases spec.verbSet with
  | error failure => rfl
  | ok verbs => exact finish_endpoint add pathname receiver rfl next

theorem EndpointSpec.finish_calls (spec : EndpointSpec) (next : Body FixedHandler) :
    (spec.calls next).finish add pathname receiver =
      spec.declare pathname >>= fun endpoint =>
        next.finish add pathname (add receiver (.endpoint endpoint)) := by
  by_cases single : spec.targets = 1
  · obtain ⟨target, sets⟩ := (targets_eq_one_iff spec).mp single
    rw [declare_of_sets pathname sets]
    cases sets with
    | directory path verbs name => exact finish_endpoint add pathname receiver rfl next
    | file path verbs name =>
        exact finish_argument add pathname receiver ⟨path, verbs, some name, none, none, none⟩
          (.text name) rfl rfl rfl next
    | respond path verbs answer =>
        exact finish_argument add pathname receiver ⟨path, verbs, none, none, some answer, none⟩
          (.callable _) rfl rfl rfl next
    | redirect path verbs place =>
        exact finish_argument add pathname receiver ⟨path, verbs, none, none, none, some place⟩
          (.callable _) rfl rfl rfl next
  · rw [calls, declare]
    simp only [if_pos single]
    rfl

theorem EndpointSpec.finish_foldr (specs : List EndpointSpec) (next : Body FixedHandler) :
    (specs.foldr calls next).finish add pathname receiver =
      specs.mapM (declare pathname) >>= fun endpoints =>
        next.finish add pathname ((endpoints.map Entry.endpoint).foldl add receiver) := by
  induction specs generalizing receiver with
  | nil => rfl
  | cons spec rest ih =>
      rw [List.foldr_cons, finish_calls, List.mapM_cons]
      cases spec.declare pathname with
      | error failure => rfl
      | ok endpoint =>
          refine (ih _).trans ?_
          cases rest.mapM (declare pathname) <;> rfl

end

theorem foldl_atEnd (entries added : List (Entry FixedHandler)) :
    added.foldl Body.atEnd entries = entries ++ added := by
  induction added generalizing entries with
  | nil => exact (List.append_nil entries).symm
  | cons first rest ih =>
      rw [List.foldl_cons, ih, Body.atEnd, List.append_assoc]
      rfl

mutual

theorem RouteSpec.finish_calls {σ : Type} (add : σ → Entry FixedHandler → σ) (pathname : String)
    (receiver : σ) : (spec : RouteSpec) → (next : Body FixedHandler) →
    (spec.calls next).finish add pathname receiver =
      spec.declare pathname >>= fun route =>
        next.finish add pathname (add receiver route.toEntry)
  | .mk path endpoints routes, next => by
      rw [RouteSpec.calls, Body.finish_route, EndpointSpec.finish_foldr, RouteSpec.declare]
      cases endpoints.mapM (EndpointSpec.declare (pathname ++ path)) with
      | error failure => rfl
      | ok declared =>
          have inner := RouteSpec.finish_callsAll Body.atEnd (pathname ++ path)
            (declared.map .endpoint) routes (.done none)
          simp only [foldl_atEnd, List.nil_append, bind, Except.bind] at inner ⊢
          rw [inner]
          cases RouteSpec.declareAll (pathname ++ path) routes <;> rfl

theorem RouteSpec.finish_callsAll {σ : Type} (add : σ → Entry FixedHandler → σ)
    (pathname : String) (receiver : σ) : (specs : List RouteSpec) →
    (next : Body FixedHandler) →
    (RouteSpec.callsAll specs next).finish add pathname receiver =
      RouteSpec.declareAll pathname specs >>= fun routes =>
        next.finish add pathname ((routes.map Route.toEntry).foldl add receiver)
  | [], next => by
      rw [RouteSpec.callsAll, RouteSpec.declareAll]
      rfl
  | spec :: rest, next => by
      rw [RouteSpec.callsAll, RouteSpec.finish_calls, RouteSpec.declareAll]
      cases spec.declare pathname with
      | error failure => rfl
      | ok route =>
          refine (RouteSpec.finish_callsAll add pathname _ rest next).trans ?_
          cases RouteSpec.declareAll pathname rest <;> rfl

end

/-- What stands in a host or a route is translated endpoints first, and added in that order. -/
theorem finish_callsFor (add : σ → Entry FixedHandler → σ) (pathname : String) (receiver : σ)
    (endpoints : List EndpointSpec) (routes : List RouteSpec) :
    (callsFor endpoints routes).finish add pathname receiver =
      (do
        let declared ← endpoints.mapM (EndpointSpec.declare pathname)
        let inner ← RouteSpec.declareAll pathname routes
        return (inner.map Route.toEntry).foldl add ((declared.map .endpoint).foldl add receiver)) := by
  rw [callsFor, EndpointSpec.finish_foldr]
  simp only [RouteSpec.finish_callsAll]
  rfl

/-- A route of a manifest is translated into the route that its calls leave. -/
theorem RouteSpec.declare_eq_finish (parent path : String) (endpoints : List EndpointSpec)
    (routes : List RouteSpec) :
    RouteSpec.declare parent (.mk path endpoints routes) =
      ((callsFor endpoints routes).finish Body.atEnd (parent ++ path) []).map
        (Route.mk (parent ++ path)) := by
  rw [finish_callsFor, RouteSpec.declare]
  simp only [foldl_atEnd, List.nil_append]
  cases endpoints.mapM (EndpointSpec.declare (parent ++ path)) with
  | error failure => rfl
  | ok declared => cases RouteSpec.declareAll (parent ++ path) routes <;> rfl

theorem foldl_push_endpoints (host : Host FixedHandler) (declared : List (Endpoint FixedHandler)) :
    (declared.map Entry.endpoint).foldl Host.push host =
      { host with base := host.base ++ declared.map .endpoint } := by
  induction declared generalizing host with
  | nil => simp
  | cons first rest ih =>
      rw [List.map_cons, List.foldl_cons, ih]
      simp [Host.push]

theorem foldl_push_routes (host : Host FixedHandler) (routes : List (Route FixedHandler)) :
    (routes.map Route.toEntry).foldl Host.push host =
      { host with routes := host.routes ++ routes } := by
  induction routes generalizing host with
  | nil => simp
  | cons first rest ih =>
      rw [List.map_cons, List.foldl_cons, ih]
      simp [Host.push, Route.toEntry]

/-- A host of a manifest is translated into the host that its calls leave. -/
theorem HostSpec.declare_eq_finish (spec : HostSpec) :
    spec.declare = Host.declare spec.hostname spec.hostOptions >>= fun host =>
      (callsFor spec.endpoints spec.routes).finish Host.push "" host := by
  rw [declare]
  simp only [finish_callsFor, foldl_push_endpoints, foldl_push_routes]
  unfold Host.declare
  split <;> rfl

/-- The calls of a manifest that succeed leave the same host when they are made in turn. -/
theorem HostSpec.declare_eq_declareAll {spec : HostSpec} {host : Host FixedHandler}
    (declared : spec.declare = .ok host) :
    ∃ opened, Host.declare spec.hostname spec.hostOptions = .ok opened ∧
      host = (opened.declareAll ((callsFor spec.endpoints spec.routes).made "")).1 := by
  rw [declare_eq_finish] at declared
  obtain ⟨opened, named, finished⟩ := bind_eq_ok_iff.mp declared
  have left := Body.runOn_push opened (callsFor spec.endpoints spec.routes)
  rw [Body.runOn_of_finish Host.push "" opened finished] at left
  exact ⟨opened, named, left⟩

/-- The same holds of a route, whose body they are. -/
theorem RouteSpec.declare_eq_make {parent path : String} {endpoints : List EndpointSpec}
    {routes : List RouteSpec} {route : Route FixedHandler}
    (declared : RouteSpec.declare parent (.mk path endpoints routes) = .ok route) :
    (Declaration.make parent
      (.route path true ((callsFor endpoints routes).made (parent ++ path)))).1 =
        .ok route.toEntry := by
  rw [declare_eq_finish] at declared
  obtain ⟨entries, finished, rfl⟩ := map_eq_ok_iff.mp declared
  rw [Body.make_route, ← Body.runOn_atEnd, Body.runOn_of_finish Body.atEnd _ _ finished]
  rfl

end Manifest

end VirtualHosts
