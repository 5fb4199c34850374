/-
A manifest against the application that it is translated into.

What is acceptable and what is described are told by recursion over the routes of the
manifest.  Every step of the translation succeeds exactly where its part is acceptable, and
yields what that part describes, so the same holds of routes, of hosts and of the whole.
-/

import VirtualHosts.Proofs.Manifest.Endpoints

namespace VirtualHosts

/-- A text with a character that is not blank. -/
def HasName (text : String) : Prop :=
  ∃ c ∈ text.toList, Text.isBlank c = false

theorem hasName_iff (text : String) : HasName text ↔ Text.isBlankText text = false := by
  rw [HasName, Text.isBlankText, List.all_eq_false]
  simp only [Bool.not_eq_true]

namespace Manifest

/-! ### Routes -/

inductive RouteSpec.Acceptable : String → RouteSpec → Prop
  | mk {parent path : String} {endpoints : List EndpointSpec} {routes : List RouteSpec}
      (endpointsAcceptable : ∀ spec ∈ endpoints, spec.Acceptable (parent ++ path))
      (routesAcceptable : ∀ spec ∈ routes, RouteSpec.Acceptable (parent ++ path) spec) :
      RouteSpec.Acceptable parent (.mk path endpoints routes)

mutual

/-- What a route of a manifest describes under the pathname of the route around it: its
endpoints stand in front of its routes. -/
def RouteSpec.Describes (parent : String) : RouteSpec → Route FixedHandler → Prop
  | .mk path endpoints routes, route =>
      route.pathname = parent ++ path ∧
        ∃ declared inner, route.entries = declared.map .endpoint ++ inner.map Route.toEntry ∧
          List.Forall₂ (EndpointSpec.Describes (parent ++ path)) endpoints declared ∧
          RouteSpec.ListDescribes (parent ++ path) routes inner

def RouteSpec.ListDescribes (parent : String) :
    List RouteSpec → List (Route FixedHandler) → Prop
  | [], routes => routes = []
  | spec :: rest, routes =>
      ∃ route later, routes = route :: later ∧ RouteSpec.Describes parent spec route ∧
        RouteSpec.ListDescribes parent rest later

end

theorem RouteSpec.listDescribes_iff {parent : String} {specs : List RouteSpec}
    {routes : List (Route FixedHandler)} :
    RouteSpec.ListDescribes parent specs routes ↔
      List.Forall₂ (RouteSpec.Describes parent) specs routes := by
  induction specs generalizing routes with
  | nil => rw [RouteSpec.ListDescribes, List.forall₂_nil_left_iff]
  | cons spec rest ih =>
      rw [RouteSpec.ListDescribes, List.forall₂_cons_left_iff]
      simp only [ih]
      constructor
      · rintro ⟨route, later, rfl, first, others⟩
        exact ⟨route, later, first, others, rfl⟩
      · rintro ⟨route, later, first, others, rfl⟩
        exact ⟨route, later, rfl, first, others⟩

theorem EndpointSpec.declareAll_eq_ok_iff {parent : String} {endpoints : List EndpointSpec}
    {declared : List (Endpoint FixedHandler)} :
    endpoints.mapM (EndpointSpec.declare parent) = .ok declared ↔
      (∀ spec ∈ endpoints, spec.Acceptable parent) ∧
        List.Forall₂ (EndpointSpec.Describes parent) endpoints declared := by
  rw [mapM_eq_ok_iff, ← List.forall₂_and_left]
  simp only [EndpointSpec.declare_eq_ok_iff]

mutual

theorem RouteSpec.declare_eq_ok_iff (parent : String) :
    (spec : RouteSpec) → (route : Route FixedHandler) →
    (spec.declare parent = .ok route ↔
      spec.Acceptable parent ∧ spec.Describes parent route)
  | .mk path endpoints routes, route => by
      have list := RouteSpec.declareAll_eq_ok_iff (parent ++ path) routes
      rw [RouteSpec.declare, bind_eq_ok_iff]
      constructor
      · rintro ⟨declared, first, rest⟩
        obtain ⟨inner, second, same⟩ := bind_eq_ok_iff.mp rest
        cases same
        obtain ⟨endpointsAcceptable, endpointsDescribed⟩ :=
          EndpointSpec.declareAll_eq_ok_iff.mp first
        obtain ⟨routesAcceptable, routesDescribed⟩ := (list inner).mp second
        exact ⟨.mk endpointsAcceptable routesAcceptable, rfl, declared, inner, rfl,
          endpointsDescribed, RouteSpec.listDescribes_iff.mpr routesDescribed⟩
      · rintro ⟨⟨endpointsAcceptable, routesAcceptable⟩, described⟩
        obtain ⟨named, declared, inner, listed, endpointsDescribed, inside⟩ := described
        have routesDescribed := RouteSpec.listDescribes_iff.mp inside
        refine ⟨declared, ?_, bind_eq_ok_iff.mpr ⟨inner, ?_, ?_⟩⟩
        · exact EndpointSpec.declareAll_eq_ok_iff.mpr ⟨endpointsAcceptable, endpointsDescribed⟩
        · exact (list inner).mpr ⟨routesAcceptable, routesDescribed⟩
        · rw [← named, ← listed]
          rfl

theorem RouteSpec.declareAll_eq_ok_iff (parent : String) :
    (specs : List RouteSpec) → (routes : List (Route FixedHandler)) →
    (RouteSpec.declareAll parent specs = .ok routes ↔
      (∀ spec ∈ specs, spec.Acceptable parent) ∧
        List.Forall₂ (RouteSpec.Describes parent) specs routes)
  | [], routes => by
      rw [RouteSpec.declareAll, List.forall₂_nil_left_iff, Except.ok.injEq]
      simp [eq_comm]
  | spec :: rest, routes => by
      have first := RouteSpec.declare_eq_ok_iff parent spec
      have others := RouteSpec.declareAll_eq_ok_iff parent rest
      rw [RouteSpec.declareAll, bind_eq_ok_iff, List.forall₂_cons_left_iff,
        List.forall_mem_cons]
      constructor
      · rintro ⟨route, declared, finished⟩
        obtain ⟨later, ran, same⟩ := bind_eq_ok_iff.mp finished
        cases same
        obtain ⟨acceptable, describes⟩ := (first route).mp declared
        obtain ⟨allAcceptable, allDescribed⟩ := (others later).mp ran
        exact ⟨⟨acceptable, allAcceptable⟩, route, later, describes, allDescribed, rfl⟩
      · rintro ⟨⟨acceptable, allAcceptable⟩, route, later, describes, allDescribed, rfl⟩
        refine ⟨route, (first route).mpr ⟨acceptable, describes⟩, ?_⟩
        exact bind_eq_ok_iff.mpr ⟨later, (others later).mpr ⟨allAcceptable, allDescribed⟩, rfl⟩

end

theorem EndpointSpec.declareAll_of_acceptable {parent : String} {endpoints : List EndpointSpec}
    (acceptable : ∀ spec ∈ endpoints, spec.Acceptable parent) :
    ∃ declared, endpoints.mapM (EndpointSpec.declare parent) = .ok declared :=
  mapM_ok_of_forall fun spec member => (acceptable spec member).declares

mutual

theorem RouteSpec.declare_of_acceptable (parent : String) :
    (spec : RouteSpec) → spec.Acceptable parent →
    ∃ route, spec.declare parent = .ok route
  | .mk path endpoints routes, ⟨endpointsAcceptable, routesAcceptable⟩ => by
      obtain ⟨declared, first⟩ := EndpointSpec.declareAll_of_acceptable endpointsAcceptable
      obtain ⟨inner, second⟩ :=
        RouteSpec.declareAll_of_acceptable (parent ++ path) routes routesAcceptable
      rw [RouteSpec.declare]
      apply bind_succeeds first
      apply bind_succeeds second
      exact ⟨_, rfl⟩

theorem RouteSpec.declareAll_of_acceptable (parent : String) :
    (specs : List RouteSpec) → (∀ spec ∈ specs, spec.Acceptable parent) →
    ∃ routes, RouteSpec.declareAll parent specs = .ok routes
  | [], _ => ⟨[], rfl⟩
  | spec :: rest, acceptable => by
      obtain ⟨first, others⟩ := List.forall_mem_cons.mp acceptable
      obtain ⟨route, declared⟩ := RouteSpec.declare_of_acceptable parent spec first
      obtain ⟨later, ran⟩ := RouteSpec.declareAll_of_acceptable parent rest others
      rw [RouteSpec.declareAll]
      apply bind_succeeds declared
      apply bind_succeeds ran
      exact ⟨_, rfl⟩

end

/-! ### Hosts -/

namespace HostSpec

structure Acceptable (spec : HostSpec) : Prop where
  hostname : HasName spec.hostname
  endpoints : ∀ endpoint ∈ spec.endpoints, endpoint.Acceptable ""
  routes : ∀ route ∈ spec.routes, route.Acceptable ""

structure Describes (spec : HostSpec) (host : Host FixedHandler) : Prop where
  hostname : host.hostname = spec.hostname
  port : host.options.port = spec.port.getD 80
  root : host.options.root = spec.root
  extra : host.options.extra = spec.options
  base : ∃ declared, host.base = declared.map .endpoint ∧
    List.Forall₂ (EndpointSpec.Describes "") spec.endpoints declared
  routes : List.Forall₂ (RouteSpec.Describes "") spec.routes host.routes

theorem open_eq_ok_iff {hostname : String} {options : HostOptions} {host : Host FixedHandler} :
    Host.declare hostname options = .ok host ↔
      HasName hostname ∧ host = ⟨hostname, options, [], []⟩ := by
  rw [Host.declare, hasName_iff]
  cases Text.isBlankText hostname <;> simp [eq_comm]

theorem declare_eq_ok_iff {spec : HostSpec} {host : Host FixedHandler} :
    spec.declare = .ok host ↔ spec.Acceptable ∧ spec.Describes host := by
  rw [declare, bind_eq_ok_iff]
  constructor
  · rintro ⟨opened, named, rest⟩
    obtain ⟨hostname, rfl⟩ := open_eq_ok_iff.mp named
    obtain ⟨base, first, rest⟩ := bind_eq_ok_iff.mp rest
    obtain ⟨routes, second, same⟩ := bind_eq_ok_iff.mp rest
    cases same
    obtain ⟨baseAcceptable, baseDescribed⟩ := EndpointSpec.declareAll_eq_ok_iff.mp first
    obtain ⟨routesAcceptable, routesDescribed⟩ :=
      (RouteSpec.declareAll_eq_ok_iff "" spec.routes routes).mp second
    exact ⟨⟨hostname, baseAcceptable, routesAcceptable⟩,
      ⟨rfl, rfl, rfl, rfl, ⟨base, rfl, baseDescribed⟩, routesDescribed⟩⟩
  · rintro ⟨acceptable, describes⟩
    obtain ⟨base, listed, baseDescribed⟩ := describes.base
    refine ⟨_, open_eq_ok_iff.mpr ⟨acceptable.hostname, rfl⟩, ?_⟩
    refine bind_eq_ok_iff.mpr ⟨base, ?_, bind_eq_ok_iff.mpr ⟨host.routes, ?_, ?_⟩⟩
    · exact EndpointSpec.declareAll_eq_ok_iff.mpr ⟨acceptable.endpoints, baseDescribed⟩
    · exact (RouteSpec.declareAll_eq_ok_iff "" spec.routes host.routes).mpr
        ⟨acceptable.routes, describes.routes⟩
    · rcases host with ⟨hostname, ⟨port, root, extra⟩, entries, routes⟩
      rcases describes with ⟨rfl, rfl, rfl, rfl, _, _⟩
      cases listed
      rfl

theorem declare_of_acceptable {spec : HostSpec} (acceptable : spec.Acceptable) :
    ∃ host, spec.declare = .ok host := by
  obtain ⟨base, first⟩ := EndpointSpec.declareAll_of_acceptable acceptable.endpoints
  obtain ⟨routes, second⟩ :=
    RouteSpec.declareAll_of_acceptable "" spec.routes acceptable.routes
  rw [declare]
  apply bind_succeeds (open_eq_ok_iff.mpr ⟨acceptable.hostname, rfl⟩)
  apply bind_succeeds first
  apply bind_succeeds second
  exact ⟨_, rfl⟩

end HostSpec

/-! ### The whole -/

structure Acceptable (manifest : Manifest) : Prop where
  engines : ∀ engine ∈ manifest.engines, HasName engine.name
  databases : ∀ database ∈ manifest.databases, HasName database.name
  hosts : ∀ host ∈ manifest.hosts, host.Acceptable

structure Describes (manifest : Manifest) (app : Application FixedHandler) : Prop where
  builders : app.builders = []
  engines : app.engines = manifest.engines
  databases : app.databases = manifest.databases
  hosts : List.Forall₂ HostSpec.Describes manifest.hosts app.hosts

end Manifest

namespace Application

variable {α : Type}

theorem requireName_bind_eq_ok_iff {name : String} {extended app : Application α} :
    (do requireName name; return extended) = .ok app ↔ HasName name ∧ app = extended := by
  rw [requireName, hasName_iff]
  cases Text.isBlankText name <;>
    simp [bind, Except.bind, pure, Except.pure, eq_comm]

/-- The application with more engines behind its own. -/
def withEngines (app : Application α) (engines : List Named) : Application α :=
  { app with engines := app.engines ++ engines }

def withDatabases (app : Application α) (databases : List Named) : Application α :=
  { app with databases := app.databases ++ databases }

theorem addEngines_eq_ok_iff {start final : Application α} {engines : List Named} :
    engines.foldlM addEngine start = .ok final ↔
      (∀ engine ∈ engines, HasName engine.name) ∧ final = start.withEngines engines := by
  apply foldlM_eq_ok_iff_of_step
  · intro app
    rw [withEngines, List.append_nil]
  · intro app engine rest
    simp only [withEngines, List.append_assoc, List.singleton_append]
  · intro app engine next
    exact requireName_bind_eq_ok_iff

theorem addDatabases_eq_ok_iff {start final : Application α} {databases : List Named} :
    databases.foldlM addDatabase start = .ok final ↔
      (∀ database ∈ databases, HasName database.name) ∧
        final = start.withDatabases databases := by
  apply foldlM_eq_ok_iff_of_step
  · intro app
    rw [withDatabases, List.append_nil]
  · intro app database rest
    simp only [withDatabases, List.append_assoc, List.singleton_append]
  · intro app database next
    exact requireName_bind_eq_ok_iff

theorem foldl_addHost (app : Application α) (hosts : List (Host α)) :
    hosts.foldl addHost app = { app with hosts := app.hosts ++ hosts } := by
  induction hosts generalizing app with
  | nil => rw [List.foldl_nil, List.append_nil]
  | cons host rest ih =>
      rw [List.foldl_cons, ih, addHost, List.append_assoc, List.singleton_append]

end Application

namespace Manifest

theorem toApplication_eq_ok_iff {manifest : Manifest} {app : Application FixedHandler} :
    manifest.toApplication = .ok app ↔ manifest.Acceptable ∧ manifest.Describes app := by
  rw [toApplication, bind_eq_ok_iff]
  constructor
  · rintro ⟨_, first, rest⟩
    obtain ⟨engines, rfl⟩ := Application.addEngines_eq_ok_iff.mp first
    obtain ⟨_, second, rest⟩ := bind_eq_ok_iff.mp rest
    obtain ⟨databases, rfl⟩ := Application.addDatabases_eq_ok_iff.mp second
    obtain ⟨hosts, third, same⟩ := bind_eq_ok_iff.mp rest
    rw [Application.foldl_addHost] at same
    cases same
    have each := mapM_eq_ok_iff.mp third
    simp only [HostSpec.declare_eq_ok_iff] at each
    obtain ⟨acceptable, described⟩ := (List.forall₂_and_left _ _).mp each
    exact ⟨⟨engines, databases, acceptable⟩, rfl, rfl, rfl, described⟩
  · rintro ⟨acceptable, describes⟩
    have each : manifest.hosts.mapM HostSpec.declare = .ok app.hosts := by
      rw [mapM_eq_ok_iff]
      simp only [HostSpec.declare_eq_ok_iff]
      exact (List.forall₂_and_left _ _).mpr ⟨acceptable.hosts, describes.hosts⟩
    refine ⟨_, Application.addEngines_eq_ok_iff.mpr ⟨acceptable.engines, rfl⟩, ?_⟩
    refine bind_eq_ok_iff.mpr
      ⟨_, Application.addDatabases_eq_ok_iff.mpr ⟨acceptable.databases, rfl⟩, ?_⟩
    refine bind_eq_ok_iff.mpr ⟨_, each, ?_⟩
    rw [Application.foldl_addHost]
    rcases app with ⟨builders, databases, engines, hosts⟩
    rcases describes with ⟨rfl, rfl, rfl, _⟩
    rfl

theorem toApplication_of_acceptable {manifest : Manifest} (acceptable : manifest.Acceptable) :
    ∃ app, manifest.toApplication = .ok app := by
  obtain ⟨hosts, third⟩ : ∃ hosts, manifest.hosts.mapM HostSpec.declare = .ok hosts :=
    mapM_ok_of_forall fun spec member =>
      HostSpec.declare_of_acceptable (acceptable.hosts spec member)
  rw [toApplication]
  apply bind_succeeds (Application.addEngines_eq_ok_iff.mpr ⟨acceptable.engines, rfl⟩)
  apply bind_succeeds (Application.addDatabases_eq_ok_iff.mpr ⟨acceptable.databases, rfl⟩)
  apply bind_succeeds third
  exact ⟨_, rfl⟩

/-- A manifest is translated exactly if it is acceptable, and then into the one application that
it describes. -/
theorem translated_as_described (manifest : Manifest) :
    ((∃ app, manifest.toApplication = .ok app) ↔ manifest.Acceptable) ∧
      ∀ app, manifest.toApplication = .ok app ↔
        manifest.Acceptable ∧ manifest.Describes app := by
  refine ⟨⟨?_, toApplication_of_acceptable⟩, fun app => toApplication_eq_ok_iff⟩
  rintro ⟨app, translated⟩
  exact (toApplication_eq_ok_iff.mp translated).1

end Manifest

end VirtualHosts
