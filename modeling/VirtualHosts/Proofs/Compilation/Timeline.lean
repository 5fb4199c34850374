/-
Chains in the order of time.

The middleware in front of an endpoint is compared with the calls that were made before it.
Within routes the order of the entries is the order of the calls.  A host keeps its routes
apart from its base and has the base visited first, so that middleware of the host runs in
front of the endpoints of its routes even when it was declared after them.
-/

import Mathlib.Data.List.Forall2
import VirtualHosts.Dispatch
import VirtualHosts.Proofs.Compilation.Chains
import VirtualHosts.Proofs.Declaration.Calls

namespace VirtualHosts

variable {α : Type}

/-! ### Moments -/

/-- The moment of a run at which an endpoint is declared, with the calls before and after it. -/
structure Moment (α : Type) where
  before : List (Call α)
  depth : Nat
  endpoint : Endpoint α
  after : List (Call α)

namespace Call

def hostMiddleware? : Call α → Option (Middleware α)
  | .middleware 0 declared => some declared
  | .middleware (_ + 1) _ | .endpoint _ _ => none

def routeMiddleware? : Call α → Option (Middleware α)
  | .middleware (_ + 1) declared => some declared
  | .middleware 0 _ | .endpoint _ _ => none

def onHost (calls : List (Call α)) : List (Middleware α) :=
  calls.filterMap hostMiddleware?

def inRoutes (calls : List (Call α)) : List (Middleware α) :=
  calls.filterMap routeMiddleware?

def moment? (before after : List (Call α)) : Call α → Option (Moment α)
  | .endpoint depth declared => some ⟨before, depth, declared, after⟩
  | .middleware _ _ => none

/-- The moments of some calls, in the order of time, when others were made before. -/
def moments (before : List (Call α)) : List (Call α) → List (Moment α)
  | [] => []
  | call :: rest => (call.moment? before rest).toList ++ moments (before ++ [call]) rest

end Call

namespace Moment

def isOnHost (moment : Moment α) : Bool :=
  moment.depth == 0

/-- The middleware of the host that is declared after an endpoint of a route. -/
def late (moment : Moment α) : List (Middleware α) :=
  if moment.isOnHost then [] else Call.onHost moment.after

/-- The scope of an endpoint: the middleware declared on the host before it and, in front of an
endpoint of a route, after it as well; then middleware of routes that was declared before it. -/
def Explains (moment : Moment α) (scope : List (Middleware α)) : Prop :=
  ∃ inner, scope = Call.onHost moment.before ++ moment.late ++ inner ∧
    inner.Sublist (Call.inRoutes moment.before) ∧ (moment.isOnHost = true → inner = [])

def followedBy (later : List (Call α)) (moment : Moment α) : Moment α :=
  { moment with after := moment.after ++ later }

end Moment

namespace Call

theorem moments_append (before left right : List (Call α)) :
    moments before (left ++ right) =
      (moments before left).map (·.followedBy right) ++ moments (before ++ left) right := by
  induction left generalizing before with
  | nil => simp [moments]
  | cons call left ih =>
      rw [List.cons_append, moments, ih, moments, List.map_append, List.append_assoc,
        List.append_assoc]
      cases call <;> rfl

theorem filter_moments_append {test : Moment α → Bool}
    (steady : ∀ later moment, test (moment.followedBy later) = test moment)
    (before left right : List (Call α)) :
    (moments before (left ++ right)).filter test =
      ((moments before left).filter test).map (·.followedBy right) ++
        (moments (before ++ left) right).filter test := by
  have kept : test ∘ Moment.followedBy right = test := funext (steady right)
  rw [moments_append, List.filter_append, List.filter_map]
  exact congrArg (fun chosen => ((moments before left).filter chosen).map _ ++ _) kept

theorem calls_of_mem_moments {before calls : List (Call α)} {moment : Moment α}
    (member : moment ∈ moments before calls) :
    moment.before ++ .endpoint moment.depth moment.endpoint :: moment.after = before ++ calls := by
  induction calls generalizing before with
  | nil => cases member
  | cons call rest ih =>
      rw [moments, List.mem_append] at member
      rcases member with first | later
      · cases call with
        | endpoint depth declared =>
            rw [moment?, Option.toList_some, List.mem_singleton] at first
            subst first
            rfl
        | middleware depth declared => cases first
      · rw [ih later, List.append_assoc]
        rfl

theorem onHost_append (left right : List (Call α)) :
    onHost (left ++ right) = onHost left ++ onHost right :=
  List.filterMap_append

theorem inRoutes_append (left right : List (Call α)) :
    inRoutes (left ++ right) = inRoutes left ++ inRoutes right :=
  List.filterMap_append

end Call

/-! ### Routes keep the order of time -/

namespace Entry

mutual

theorem calls_isOnHost (depth : Nat) (before : List (Call α)) : (entry : Entry α) →
    ∀ moment ∈ Call.moments before (entry.calls (depth + 1)), moment.isOnHost = false
  | .endpoint declared => by
      intro moment member
      rw [calls, Call.moments, Call.moments, List.append_nil, Call.moment?, Option.toList_some,
        List.mem_singleton] at member
      subst member
      rfl
  | .middleware _ => by
      intro moment member
      cases member
  | .route _ entries => listCalls_isOnHost (depth + 1) before entries

theorem listCalls_isOnHost (depth : Nat) (before : List (Call α)) : (entries : List (Entry α)) →
    ∀ moment ∈ Call.moments before (listCalls (depth + 1) entries), moment.isOnHost = false
  | [] => by
      intro moment member
      cases member
  | entry :: rest => by
      intro moment member
      rw [listCalls, Call.moments_append, List.mem_append] at member
      rcases member with first | later
      · obtain ⟨inner, own, rfl⟩ := List.mem_map.mp first
        exact calls_isOnHost depth before entry inner own
      · exact listCalls_isOnHost depth _ rest moment later

end

mutual

theorem onHost_calls (depth : Nat) : (entry : Entry α) →
    Call.onHost (entry.calls (depth + 1)) = []
  | .endpoint _ => rfl
  | .middleware _ => rfl
  | .route _ entries => onHost_listCalls (depth + 1) entries

theorem onHost_listCalls (depth : Nat) : (entries : List (Entry α)) →
    Call.onHost (listCalls (depth + 1) entries) = []
  | [] => rfl
  | entry :: rest => by
      rw [listCalls, Call.onHost_append, onHost_calls depth entry, onHost_listCalls depth rest,
        List.append_nil]

end

theorem middlewareOf_sublist_calls (depth : Nat) (entry : Entry α) :
    (middlewareOf [entry]).Sublist (Call.inRoutes (entry.calls (depth + 1))) := by
  cases entry with
  | endpoint declared => exact List.nil_sublist _
  | middleware declared => exact List.Sublist.refl _
  | route pathname entries => exact List.nil_sublist _

/-- A position in a route is that of a moment, and what is in scope there was declared before. -/
def Follows (outer : List (Middleware α)) (moment : Moment α) (position : Position α) : Prop :=
  position.endpoint = moment.endpoint ∧
    (outer ++ position.scope).Sublist (Call.inRoutes moment.before)

mutual

theorem positions_follow (depth : Nat) (before : List (Call α)) (outer : List (Middleware α))
    (earlier : outer.Sublist (Call.inRoutes before)) : (entry : Entry α) →
    List.Forall₂ (Follows outer) (Call.moments before (entry.calls (depth + 1))) entry.positions
  | .endpoint declared => by
      refine .cons ⟨rfl, ?_⟩ .nil
      simpa [Position.scope] using earlier
  | .middleware _ => .nil
  | .route _ entries => by
      refine listPositions_follow (depth + 1) before outer [] ?_ entries
      rw [middlewareOf, List.filterMap_nil, List.append_nil]
      exact earlier

theorem listPositions_follow (depth : Nat) (before : List (Call α))
    (outer : List (Middleware α)) (seen : List (Entry α))
    (earlier : (outer ++ middlewareOf seen).Sublist (Call.inRoutes before)) :
    (entries : List (Entry α)) →
    List.Forall₂ (Follows outer) (Call.moments before (listCalls (depth + 1) entries))
      (listPositions seen entries)
  | [] => .nil
  | entry :: rest => by
      rw [listCalls, Call.moments_append, listPositions]
      apply List.rel_append
      · rw [List.forall₂_map_left_iff, List.forall₂_map_right_iff]
        refine (positions_follow depth before (outer ++ middlewareOf seen) earlier entry).imp ?_
        rintro moment position ⟨same, follows⟩
        refine ⟨same, ?_⟩
        rw [Position.behind_scope, ← List.append_assoc]
        exact follows
      · refine listPositions_follow depth _ outer (seen ++ [entry]) ?_ rest
        rw [middlewareOf_append, Call.inRoutes_append, ← List.append_assoc]
        exact earlier.append (middlewareOf_sublist_calls depth entry)

end

/-! ### What is declared on a host itself -/

theorem listPositions_append (seen left right : List (Entry α)) :
    listPositions seen (left ++ right) =
      listPositions seen left ++ listPositions (seen ++ left) right := by
  induction left generalizing seen with
  | nil => rw [List.nil_append, List.append_nil, listPositions, List.nil_append]
  | cons entry left ih =>
      rw [List.cons_append, listPositions, ih, listPositions, List.append_assoc,
        List.append_assoc]
      rfl

theorem onHost_calls_zero (entry : Entry α) :
    Call.onHost (entry.calls 0) = middlewareOf (besideRoutes [entry]) := by
  cases entry with
  | endpoint declared => rfl
  | middleware declared => rfl
  | route pathname entries => exact onHost_listCalls 0 entries

theorem onHost_listCalls_zero (entries : List (Entry α)) :
    Call.onHost (listCalls 0 entries) = middlewareOf (besideRoutes entries) := by
  induction entries with
  | nil => rfl
  | cons entry rest ih =>
      rw [listCalls, Call.onHost_append, onHost_calls_zero, ih, ← middlewareOf_append,
        ← besideRoutes_append]
      rfl

theorem moments_onHost (before : List (Call α)) (entry : Entry α) :
    (Call.moments before (entry.calls 0)).filter Moment.isOnHost =
      match entry with
      | .endpoint declared => [⟨before, 0, declared, []⟩]
      | .middleware _ | .route _ _ => [] := by
  cases entry with
  | endpoint declared => rfl
  | middleware declared => rfl
  | route pathname entries =>
      apply List.filter_eq_nil_iff.mpr
      intro moment member
      rw [listCalls_isOnHost 0 before entries moment member]
      exact Bool.false_ne_true

theorem moments_inRoute (before : List (Call α)) (entries : List (Entry α)) :
    (Call.moments before (listCalls 1 entries)).filter (!·.isOnHost) =
      Call.moments before (listCalls 1 entries) := by
  apply List.filter_eq_self.mpr
  intro moment member
  rw [listCalls_isOnHost 0 before entries moment member]
  rfl

/-- The positions in the base of a host are the moments of its own endpoints.  What is in scope
there is the middleware of the host that was declared before. -/
theorem base_follows (before : List (Call α)) (seen : List (Entry α))
    (earlier : Call.onHost before = middlewareOf seen) (entries : List (Entry α)) :
    List.Forall₂
      (fun (moment : Moment α) (position : Position α) => position.endpoint = moment.endpoint ∧
        position.scope = Call.onHost moment.before)
      ((Call.moments before (listCalls 0 entries)).filter Moment.isOnHost)
      (listPositions seen (besideRoutes entries)) := by
  induction entries generalizing before seen with
  | nil => exact .nil
  | cons entry rest ih =>
      have split : besideRoutes (entry :: rest) = besideRoutes [entry] ++ besideRoutes rest :=
        besideRoutes_append [entry] rest
      rw [listCalls, Call.filter_moments_append (fun _ _ => rfl), split, listPositions_append]
      apply List.rel_append
      · rw [moments_onHost]
        cases entry with
        | endpoint declared =>
            refine .cons ⟨rfl, ?_⟩ .nil
            rw [Position.behind_scope]
            exact (List.append_nil _).trans earlier.symm
        | middleware declared => exact .nil
        | route pathname entries => exact .nil
      · apply ih
        rw [Call.onHost_append, earlier, onHost_calls_zero, middlewareOf_append]

/-- The positions in the routes of a host are the moments of the endpoints declared in routes. -/
theorem routes_follow (before : List (Call α)) (entries : List (Entry α)) :
    List.Forall₂ (Follows [])
      ((Call.moments before (listCalls 0 entries)).filter (!·.isOnHost))
      ((entries.filterMap route?).flatMap fun route => listPositions [] route.entries) := by
  induction entries generalizing before with
  | nil => exact .nil
  | cons entry rest ih =>
      rw [listCalls, Call.filter_moments_append (fun _ _ => rfl)]
      cases entry with
      | endpoint declared => exact ih _
      | middleware declared => exact ih _
      | route pathname entries =>
          have routes : (Entry.route pathname entries :: rest).filterMap route? =
              ⟨pathname, entries⟩ :: rest.filterMap route? := rfl
          rw [routes, List.flatMap_cons]
          apply List.rel_append
          · rw [calls, moments_inRoute, List.forall₂_map_left_iff]
            exact listPositions_follow 0 before [] [] (List.nil_sublist _) entries
          · exact ih _

end Entry

namespace HostRun

/-- The moments of a run in the order in which the endpoints are visited: those of the host itself
come first. -/
def moments (run : HostRun α) : List (Moment α) :=
  (Call.moments [] run.calls).filter Moment.isOnHost ++
    (Call.moments [] run.calls).filter (!·.isOnHost)

end HostRun

namespace Moment

theorem explains_onHost {moment : Moment α} (onHost : moment.isOnHost = true) :
    moment.Explains (Call.onHost moment.before) := by
  refine ⟨[], ?_, List.nil_sublist _, fun _ => rfl⟩
  rw [late, if_pos onHost, List.append_nil, List.append_nil]

theorem explains_inRoute {moment : Moment α} (inRoute : moment.isOnHost = false)
    {inner : List (Middleware α)} (earlier : inner.Sublist (Call.inRoutes moment.before)) :
    moment.Explains (Call.onHost moment.before ++ Call.onHost moment.after ++ inner) := by
  refine ⟨inner, ?_, earlier, ?_⟩
  · rw [late, if_neg (Bool.eq_false_iff.mp inRoute)]
  · rw [inRoute]
    nofun

/-- The middleware of a host is declared before a moment or after it. -/
theorem onHost_split {before calls : List (Call α)} {moment : Moment α}
    (member : moment ∈ Call.moments before calls) :
    Call.onHost moment.before ++ Call.onHost moment.after = Call.onHost (before ++ calls) := by
  rw [← Call.calls_of_mem_moments member, Call.onHost_append]
  rfl

end Moment

namespace HostRun

/-- Every position in a host is that of a moment, and the moment explains what is in scope. -/
theorem positions_explained {run : HostRun α} {host : Host α} (made : run.host? = .ok host) :
    List.Forall₂
      (fun (moment : Moment α) (position : Position α) => position.endpoint = moment.endpoint ∧
        moment.Explains position.scope)
      run.moments host.positions := by
  obtain ⟨_, _, base, routes⟩ := host?_eq_ok made
  have calls : run.calls = Entry.listCalls 0 (Declaration.added "" run.declarations) :=
    Declaration.listCalls_eq "" 0 run.declarations
  have declared : Call.onHost run.calls = Entry.middlewareOf host.base := by
    rw [calls, base]
    exact Entry.onHost_listCalls_zero _
  rw [moments, Host.positions]
  apply List.rel_append
  · have follows := Entry.base_follows [] [] rfl (Declaration.added "" run.declarations)
    rw [← calls, ← base] at follows
    have placed (moment : Moment α)
        (member : moment ∈ (Call.moments [] run.calls).filter Moment.isOnHost) :
        moment.isOnHost = true := (List.mem_filter.mp member).2
    refine List.Forall₂.imp ?_ ((List.forall₂_and_left _ _).mpr ⟨placed, follows⟩)
    rintro moment position ⟨onHost, same, scope⟩
    rw [scope]
    exact ⟨same, Moment.explains_onHost onHost⟩
  · have follows := Entry.routes_follow [] (Declaration.added "" run.declarations)
    rw [← calls, ← routes] at follows
    have placed (moment : Moment α)
        (member : moment ∈ (Call.moments [] run.calls).filter (!·.isOnHost)) :
        moment.isOnHost = false ∧
          Call.onHost moment.before ++ Call.onHost moment.after = Entry.middlewareOf host.base := by
      obtain ⟨counted, inRoute⟩ := List.mem_filter.mp member
      exact ⟨(Bool.not_eq_true' _).mp inRoute, (Moment.onHost_split counted).trans declared⟩
    rw [← List.map_flatMap, List.forall₂_map_right_iff]
    refine List.Forall₂.imp ?_ ((List.forall₂_and_left _ _).mpr ⟨placed, follows⟩)
    rintro moment position ⟨⟨inRoute, whole⟩, same, earlier⟩
    rw [Position.behind_scope, ← whole]
    exact ⟨same, Moment.explains_inRoute inRoute earlier⟩

end HostRun

/-! ### What is registered for a moment -/

/-- A registration for the endpoint of a moment: its chain has the middleware that the moment
explains, as far as it applies to the pathname, and then the handler of the endpoint. -/
def Moment.Registers (run : HostRun α) (moment : Moment α) (registration : Registration α) :
    Prop :=
  registration.hostname = run.hostname ∧ registration.port = run.options.port ∧
    registration.pathname = moment.endpoint.pathname ∧
    registration.verbs = moment.endpoint.verbs ∧
    ∃ handler scope, moment.endpoint.handler? = some handler ∧ moment.Explains scope ∧
      registration.chain = (scope.filter (·.appliesTo moment.endpoint.pathname)).map
        Middleware.handler ++ [handler]

namespace HostRun

def processMoments (run : HostRun α) : List (Moment α) :=
  run.moments.filter (·.endpoint.handler?.isSome)

theorem registrations_explained {run : HostRun α} {host : Host α}
    (made : run.host? = .ok host) :
    List.Forall₂ (Moment.Registers run) run.processMoments host.registrations := by
  obtain ⟨hostname, options, _, _⟩ := host?_eq_ok made
  rw [processMoments, Host.registrations]
  have explained := positions_explained made
  generalize run.moments = moments at explained ⊢
  generalize host.positions = positions at explained ⊢
  induction explained with
  | nil => exact .nil
  | @cons moment position moments positions first rest ih =>
      obtain ⟨same, explains⟩ := first
      rw [List.filter_cons, List.filterMap_cons, Walk.registration?, same]
      cases given : moment.endpoint.handler? with
      | none => exact ih
      | some handler =>
          refine .cons ⟨hostname, ?_, rfl, rfl, handler, position.scope, given, explains, rfl⟩ ih
          rw [options]

end HostRun

namespace Compilation

/-- The registrations are those of the moments at which the hosts declare endpoints that the
process answers, host after host, the endpoints of the host itself before those of its routes.
Every middleware in a chain was declared before the endpoint, but for middleware that is declared
on the host itself after an endpoint of a route: this runs in front of the endpoint as well. -/
theorem chains_follow_calls {settings : Settings} {backend : Backend α} {app : Application α}
    {compilation : Compilation α} (compiled : build settings backend app = .ok compilation)
    {runs : List (HostRun α)}
    (made : List.Forall₂ (fun run host => run.host? = .ok host) runs app.hosts) :
    List.Forall₂
      (fun (told : HostRun α × Moment α) registration => told.2.Registers told.1 registration)
      (runs.flatMap fun run => run.processMoments.map fun moment => (run, moment))
      (compilation.backend.getD []) := by
  rw [build_registrations compiled]
  generalize app.hosts = hosts at made ⊢
  induction made with
  | nil => exact .nil
  | cons first rest ih =>
      rw [List.flatMap_cons, List.flatMap_cons]
      apply List.rel_append
      · rw [List.forall₂_map_left_iff]
        exact HostRun.registrations_explained first
      · exact ih

/-- A host whose middleware is declared after a route. -/
def lateRun : HostRun Nat where
  hostname := "a.test"
  options := {}
  declarations := [
    .route "/api" false [
      .endpoint (.single .get) (.plain [.text "/users", .callable 1]),
      .middleware (.plain [.callable 10]),
      .endpoint (.single .get) (.plain [.text "/orders", .callable 2])],
    .middleware (.plain [.callable 20])]

def lateHost : Host Nat where
  hostname := "a.test"
  options := {}
  base := [.middleware ⟨"*", 20⟩]
  routes := [⟨"/api", [
    .endpoint ⟨"/api/users", .single .get, .process 1⟩, .middleware ⟨"*", 10⟩,
    .endpoint ⟨"/api/orders", .single .get, .process 2⟩]⟩]

theorem lateRun_host? : lateRun.host? = .ok lateHost := by
  rfl

theorem chains_follow_late_calls :
    ∃ compilation, build {} ⟨fun _ => .ok ()⟩ { hosts := [lateHost] } = .ok compilation ∧
      lateRun.host? = .ok lateHost ∧
      List.Forall₂ (Moment.Registers lateRun) lateRun.processMoments
        (compilation.backend.getD []) := by
  have succeeds : (build {} ⟨fun _ => .ok ()⟩ { hosts := [lateHost] }).isOk = true := by
    decide +kernel
  obtain ⟨compilation, compiled⟩ := (isOk_iff_exists _).mp succeeds
  have follows := chains_follow_calls compiled (.cons lateRun_host? .nil)
  rw [List.flatMap_singleton, List.forall₂_map_left_iff] at follows
  exact ⟨compilation, compiled, lateRun_host?, follows⟩

/-- The last call declares middleware, and it is in the chains of both endpoints before it. -/
theorem late_middleware_runs :
    ∃ compilation, build {} ⟨fun _ => .ok ()⟩ { hosts := [lateHost] } = .ok compilation ∧
      lateRun.host? = .ok lateHost ∧
      lateRun.calls = [
        .endpoint 1 ⟨"/api/users", .single .get, .process 1⟩, .middleware 1 ⟨"*", 10⟩,
        .endpoint 1 ⟨"/api/orders", .single .get, .process 2⟩, .middleware 0 ⟨"*", 20⟩] ∧
      (compilation.backend.getD []).map (fun registration =>
        (registration.pathname, registration.chain)) =
          [("/api/users", [20, 1]), ("/api/orders", [20, 10, 2])] := by
  have succeeds : (build {} ⟨fun _ => .ok ()⟩ { hosts := [lateHost] }).isOk = true := by
    decide +kernel
  obtain ⟨compilation, compiled⟩ := (isOk_iff_exists _).mp succeeds
  refine ⟨compilation, compiled, lateRun_host?, rfl, ?_⟩
  rw [build_registrations compiled]
  decide +kernel

end Compilation

end VirtualHosts
