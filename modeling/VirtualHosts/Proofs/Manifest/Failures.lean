/-
Where the translation of a manifest fails, and which pathname its error names.

The places of a manifest are its endpoints, each with the paths of the routes around it, in the
order in which they are translated.  The translation fails where the first of them fails.  Errors
of the declaration itself name the full pathname of the place, as those of a call in the same
routes do.  Only the number of targets is looked at before, and names the endpoint's own path.
-/

import VirtualHosts.Proofs.Manifest.Endpoints

namespace VirtualHosts

/-- The pathname in an error about the verbs and targets of an endpoint. -/
def DeclarationError.endpoint? : DeclarationError → Option String
  | missingVerbs pathname | handlerCount pathname _ | staticMarkerMixed pathname
  | staticRequiresDirectory pathname => some pathname
  | missingName | missingHostname | missingArguments | emptyPathname
  | middlewareRequiresCallable _ | unknownVerb _ => none

/-! ### Calls in routes -/

section Calls

variable {α : Type}

/-- All that can be wrong with a declaration. -/
theorem Endpoint.failure_cases {pathname : String} {verbs : VerbSet} {targets : List (Target α)}
    {failure : DeclarationError} (failed : declare pathname verbs targets = .error failure) :
    failure = .emptyPathname ∨ (verbs.isEmpty = true ∧ failure = .missingVerbs pathname) ∨
      failure = .staticMarkerMixed pathname ∨ failure = .staticRequiresDirectory pathname ∨
      (targets.length ≠ 1 ∧ failure = .handlerCount pathname targets.length) := by
  unfold declare at failed
  split at failed
  · cases failed
    exact .inl rfl
  split at failed
  · rename_i empty
    cases failed
    exact .inr (.inl ⟨empty, rfl⟩)
  split at failed
  · cases failed
    exact .inr (.inr (.inl rfl))
  split at failed
  · cases failed
  · split at failed <;> cases failed
    exact .inr (.inr (.inr (.inl rfl)))
  · rename_i noFile noProcess
    cases failed
    refine .inr (.inr (.inr (.inr ⟨fun single => ?_, rfl⟩)))
    obtain ⟨target, rfl⟩ := List.length_eq_one_iff.mp single
    cases target with
    | file path => exact noFile path rfl
    | process handler => exact noProcess handler rfl

theorem Endpoint.endpoint_of_declare {pathname named : String} {verbs : VerbSet}
    {targets : List (Target α)} {failure : DeclarationError}
    (failed : declare pathname verbs targets = .error failure)
    (names : failure.endpoint? = some named) : named = pathname := by
  rcases failure_cases failed with rfl | ⟨-, rfl⟩ | rfl | rfl | ⟨-, rfl⟩
  · cases names
  all_goals exact (Option.some.inj names).symm

/-- With one target and some verbs, only the mark of a directory can be wrong. -/
theorem Endpoint.failure_of_single {pathname named : String} {verbs : VerbSet} {target : Target α}
    {failure : DeclarationError} (failed : declare pathname verbs [target] = .error failure)
    (names : failure.endpoint? = some named) (inhabited : verbs.isEmpty = false) :
    failure = .staticMarkerMixed pathname ∨ failure = .staticRequiresDirectory pathname := by
  rcases failure_cases failed with rfl | ⟨empty, -⟩ | mixed | callable | ⟨several, -⟩
  · cases names
  · rw [inhabited] at empty
    contradiction
  · exact .inl mixed
  · exact .inr callable
  · exact absurd rfl several

theorem Endpoint.endpoint_of_under {parent named : String} {verbs : VerbSet} {given : Given α}
    {failure : DeclarationError} (failed : Endpoint.under parent verbs given = .error failure)
    (names : failure.endpoint? = some named) : named = parent ++ given.pathname := by
  rw [Endpoint.under] at failed
  cases read : given.arguments with
  | error unread =>
      rw [read] at failed
      cases failed
      cases given with
      | sorted arguments => cases read
      | plain arguments =>
          rcases arguments with _ | ⟨_ | _, rest⟩ <;> cases read
          cases names
  | ok arguments =>
      rw [read, Given.arguments_eq_ok read] at failed
      exact Endpoint.endpoint_of_declare failed names

/-- A declaration inside of routes with some paths, the outermost first. -/
def Declaration.inRoutes (paths : List String) (declaration : Declaration α) : Declaration α :=
  paths.foldr (fun path inner => .route path false [inner]) declaration

/-- A call inside of routes fails as it does under their joined paths. -/
theorem Declaration.failureOf_inRoutes (paths : List String) (declaration : Declaration α)
    (parent : String) :
    failureOf ((inRoutes paths declaration).make parent).1 =
      failureOf (declaration.make (parent ++ String.join paths)).1 := by
  induction paths generalizing parent with
  | nil =>
      change failureOf (declaration.make parent).1 = failureOf (declaration.make (parent ++ "")).1
      rw [String.append_empty]
  | cons path rest ih =>
      rw [String.join_cons, ← String.append_assoc, ← ih]
      change failureOf (make parent (.route path false [inRoutes rest declaration])).1 = _
      rw [make, makeAll]
      cases make (parent ++ path) (inRoutes rest declaration) with
      | mk result inner => cases result <;> rfl

end Calls

namespace Manifest

/-! ### Places -/

/-- An endpoint of a manifest, with the paths of the routes around it, the outermost first. -/
structure Place where
  around : List String
  spec : EndpointSpec
  deriving DecidableEq

namespace Place

def parent (place : Place) : String :=
  String.join place.around

def ownPath (place : Place) : String :=
  place.spec.path.getD anyPath

/-- The full pathname. -/
def pathname (place : Place) : String :=
  place.parent ++ place.ownPath

def declare (place : Place) : Except DeclarationError (Endpoint FixedHandler) :=
  place.spec.declare place.parent

def failure? (place : Place) : Option DeclarationError :=
  failureOf place.declare

theorem ownPath_eq_pathname_iff (place : Place) :
    place.ownPath = place.pathname ↔ place.parent = "" := by
  have cancelled : "" ++ place.ownPath = place.parent ++ place.ownPath ↔ "" = place.parent :=
    String.append_left_inj place.ownPath
  rwa [String.empty_append, @eq_comm _ ""] at cancelled

end Place

mutual

/-- The places in a route: its endpoints stand in front of those of its routes. -/
def RouteSpec.places (around : List String) : RouteSpec → List Place
  | .mk path endpoints routes =>
      endpoints.map (Place.mk (around ++ [path])) ++ RouteSpec.listPlaces (around ++ [path]) routes

def RouteSpec.listPlaces (around : List String) : List RouteSpec → List Place
  | [] => []
  | spec :: rest => RouteSpec.places around spec ++ RouteSpec.listPlaces around rest

end

def HostSpec.places (spec : HostSpec) : List Place :=
  spec.endpoints.map (Place.mk []) ++ RouteSpec.listPlaces [] spec.routes

end Manifest

def Manifest.places (manifest : Manifest) : List Manifest.Place :=
  manifest.hosts.flatMap HostSpec.places

namespace Manifest

/-! ### The first failure -/

theorem EndpointSpec.failureOf_declareAll (around : List String) (endpoints : List EndpointSpec) :
    failureOf (endpoints.mapM (EndpointSpec.declare (String.join around))) =
      (endpoints.map (Place.mk around)).findSome? Place.failure? := by
  rw [failureOf_mapM, List.findSome?_map]
  rfl

theorem join_concat (around : List String) (path : String) :
    String.join around ++ path = String.join (around ++ [path]) := by
  rw [String.join_append, String.join_cons, String.join_nil, String.append_empty]

mutual

theorem RouteSpec.failureOf_declare (around : List String) : (spec : RouteSpec) →
    failureOf (spec.declare (String.join around)) =
      (RouteSpec.places around spec).findSome? Place.failure?
  | .mk path endpoints routes => by
      have inner := RouteSpec.failureOf_declareAll (around ++ [path]) routes
      rw [RouteSpec.declare, RouteSpec.places, List.findSome?_append, join_concat,
        ← EndpointSpec.failureOf_declareAll]
      apply failureOf_bind
      intro declared
      rw [failureOf_bind_pure, inner]

theorem RouteSpec.failureOf_declareAll (around : List String) : (specs : List RouteSpec) →
    failureOf (RouteSpec.declareAll (String.join around) specs) =
      (RouteSpec.listPlaces around specs).findSome? Place.failure?
  | [] => rfl
  | spec :: rest => by
      have first := RouteSpec.failureOf_declare around spec
      have others := RouteSpec.failureOf_declareAll around rest
      rw [RouteSpec.declareAll, RouteSpec.listPlaces, List.findSome?_append, ← first, ← others]
      apply failureOf_bind
      intro declared
      exact failureOf_bind_pure _ _

end

theorem HostSpec.failureOf_declare (spec : HostSpec) :
    failureOf spec.declare =
      (if Text.isBlankText spec.hostname then some .missingHostname else none).or
        (spec.places.findSome? Place.failure?) := by
  let opening : Except DeclarationError (Host FixedHandler) :=
    Host.declare spec.hostname spec.hostOptions
  have opened : failureOf opening =
      if Text.isBlankText spec.hostname then some .missingHostname else none := by
    dsimp only [opening]
    rw [Host.declare]
    cases Text.isBlankText spec.hostname <;> rfl
  rw [declare, places, List.findSome?_append, ← opened, ← EndpointSpec.failureOf_declareAll,
    ← RouteSpec.failureOf_declareAll]
  apply failureOf_bind
  intro host
  apply failureOf_bind
  intro base
  exact failureOf_bind_pure _ _

/-- A manifest fails over the names of its engines and databases, and otherwise as the first of
its hosts that does. -/
theorem failureOf_toApplication (manifest : Manifest) :
    failureOf manifest.toApplication =
      (manifest.engines.findSome? fun engine => failureOf (Application.requireName engine.name)).or
        ((manifest.databases.findSome? fun database =>
            failureOf (Application.requireName database.name)).or
          (manifest.hosts.findSome? fun host => failureOf host.declare)) := by
  have engine (app : Application FixedHandler) (engine : Named) :
      failureOf (app.addEngine engine) = failureOf (Application.requireName engine.name) :=
    failureOf_bind_pure _ _
  have database (app : Application FixedHandler) (database : Named) :
      failureOf (app.addDatabase database) = failureOf (Application.requireName database.name) :=
    failureOf_bind_pure _ _
  rw [toApplication, failureOf_bind, failureOf_foldlM engine]
  intro withEngines
  rw [failureOf_bind, failureOf_foldlM database]
  intro withDatabases
  rw [failureOf_bind_pure, failureOf_mapM]

/-- An error about an endpoint is that of the first place that fails. -/
theorem failing_place {manifest : Manifest} {failure : DeclarationError} {named : String}
    (failed : manifest.toApplication = .error failure) (names : failure.endpoint? = some named) :
    ∃ before place after, manifest.places = before ++ place :: after ∧
      (∀ earlier ∈ before, ∃ endpoint, earlier.declare = .ok endpoint) ∧
      place.declare = .error failure := by
  have unnamed {name : String} (refused : failureOf (Application.requireName name) = some failure) :
      False := by
    rw [Application.requireName] at refused
    split at refused <;> cases refused
    cases names
  rw [← failureOf_eq_some_iff, failureOf_toApplication, Option.or_eq_some_iff] at failed
  rcases failed with engines | ⟨-, others⟩
  · obtain ⟨engine, -, refused⟩ := List.exists_of_findSome?_eq_some engines
    exact absurd refused unnamed
  rw [Option.or_eq_some_iff] at others
  rcases others with databases | ⟨-, hosts⟩
  · obtain ⟨database, -, refused⟩ := List.exists_of_findSome?_eq_some databases
    exact absurd refused unnamed
  obtain ⟨hostsBefore, host, hostsAfter, listed, refused, passed⟩ :=
    List.findSome?_eq_some_iff.mp hosts
  rw [HostSpec.failureOf_declare, Option.or_eq_some_iff] at refused
  rcases refused with hostname | ⟨-, inside⟩
  · split at hostname <;> cases hostname
    cases names
  obtain ⟨before, place, after, placed, stuck, declared⟩ := List.findSome?_eq_some_iff.mp inside
  refine ⟨hostsBefore.flatMap HostSpec.places ++ before, place,
    after ++ hostsAfter.flatMap HostSpec.places, ?_, ?_, failureOf_eq_some_iff.mp stuck⟩
  · rw [places, listed, List.flatMap_append, List.flatMap_cons, placed]
    simp only [List.append_assoc, List.cons_append]
  · intro earlier member
    rw [← failureOf_eq_none_iff]
    rcases List.mem_append.mp member with onEarlierHost | sameHost
    · obtain ⟨spec, listed, held⟩ := List.mem_flatMap.mp onEarlierHost
      have through := passed spec listed
      rw [HostSpec.failureOf_declare, Option.or_eq_none_iff, List.findSome?_eq_none_iff] at through
      exact through.2 earlier held
    · exact declared earlier sameHost

/-! ### The pathname that is named -/

theorem EndpointSpec.endpoint_of_verbsNamed {name : String} {failure : DeclarationError}
    (failed : verbsNamed name = .error failure) : failure.endpoint? = none := by
  rw [verbsNamed] at failed
  split at failed
  · cases failed
  · cases known : Verb.ofName? name <;> rw [known] at failed <;> cases failed
    rfl

/-- Names of verbs that are not known are no matter of the endpoint. -/
theorem EndpointSpec.endpoint_of_verbs {spec : EndpointSpec} {failure : DeclarationError}
    (failed : spec.verbs? = .error failure) : failure.endpoint? = none := by
  rw [verbs?, verbSet] at failed
  split at failed
  · cases failed
  split at failed
  · cases failed
  cases read : spec.verbs.mapM verbsNamed with
  | ok sets =>
      rw [read] at failed
      cases failed
  | error unread =>
      rw [read] at failed
      cases failed
      rw [← failureOf_eq_some_iff, failureOf_mapM] at read
      obtain ⟨name, -, refused⟩ := List.exists_of_findSome?_eq_some read
      exact endpoint_of_verbsNamed (failureOf_eq_some_iff.mp refused)

theorem EndpointSpec.verbs_inhabited {spec : EndpointSpec} {verbs : VerbSet}
    {target : Target FixedHandler} (sets : spec.Sets target) (read : spec.verbs? = .ok verbs) :
    verbs.isEmpty = false := by
  obtain ⟨named, marked, asked⟩ := verbs?_eq_ok_iff.mp read
  have describes : spec.Describes "" ⟨"" ++ spec.path.getD anyPath, verbs, target⟩ :=
    ⟨rfl, marked, asked, sets⟩
  exact (VerbSet.isEmpty_eq_false_iff verbs).mpr (describes.inhabited named)

theorem EndpointSpec.declare_of_several {spec : EndpointSpec} (several : spec.targets ≠ 1)
    (parent : String) :
    spec.declare parent = .error (.handlerCount (spec.path.getD anyPath) spec.targets) := by
  rw [declare]
  simp only [if_pos several]
  rfl

theorem EndpointSpec.failure_of_single {parent named : String} {spec : EndpointSpec}
    {failure : DeclarationError} (single : spec.targets = 1)
    (failed : spec.declare parent = .error failure) (names : failure.endpoint? = some named) :
    failure = .staticMarkerMixed (parent ++ spec.path.getD anyPath) ∨
      failure = .staticRequiresDirectory (parent ++ spec.path.getD anyPath) := by
  obtain ⟨target, sets⟩ := (targets_eq_one_iff spec).mp single
  rw [declare_of_sets parent sets] at failed
  cases read : spec.verbs? with
  | error unread =>
      rw [read] at failed
      cases failed
      rw [endpoint_of_verbs read] at names
      cases names
  | ok verbs =>
      rw [read] at failed
      exact Endpoint.failure_of_single failed names (verbs_inhabited sets read)

/-- How the error of a place names its endpoint: with the full pathname, as a call does in the
same routes, unless targets are counted below a route. -/
structure Place.Reported (place : Place) (failure : DeclarationError) (named : String) :
    Prop where
  full : named = place.pathname ↔ place.spec.targets = 1 ∨ place.parent = ""
  counted : place.spec.targets ≠ 1 → failure = .handlerCount place.ownPath place.spec.targets
  checked : place.spec.targets = 1 →
    failure = .staticMarkerMixed place.pathname ∨
      failure = .staticRequiresDirectory place.pathname
  called : ∀ verbs (given : Given FixedHandler) refused other, given.pathname = place.ownPath →
    ((Declaration.inRoutes place.around (.endpoint verbs given)).make "").1 = .error refused →
    refused.endpoint? = some other → other = place.pathname

theorem Place.reported {place : Place} {failure : DeclarationError} {named : String}
    (failed : place.declare = .error failure) (names : failure.endpoint? = some named) :
    place.Reported failure named where
  full := by
    by_cases single : place.spec.targets = 1
    · rcases EndpointSpec.failure_of_single single failed names with rfl | rfl <;>
        simp [← Option.some.inj names, single, pathname, ownPath]
    · rw [declare, EndpointSpec.declare_of_several single] at failed
      cases failed
      cases names
      simp only [single, false_or]
      exact place.ownPath_eq_pathname_iff
  counted := by
    intro several
    rw [declare, EndpointSpec.declare_of_several several] at failed
    exact (Except.error.inj failed).symm
  checked := fun single => EndpointSpec.failure_of_single single failed names
  called := by
    intro verbs given refused other same called names
    rw [← failureOf_eq_some_iff, Declaration.failureOf_inRoutes, String.empty_append,
      Declaration.make, failureOf_map, failureOf_eq_some_iff] at called
    rw [pathname, ← same]
    exact Endpoint.endpoint_of_under called names

/-- An error about an endpoint is that of the first place that fails, and names its full pathname
unless targets are counted below a route. -/
theorem failures_name_places {manifest : Manifest} {failure : DeclarationError} {named : String}
    (failed : manifest.toApplication = .error failure) (names : failure.endpoint? = some named) :
    ∃ before place after, manifest.places = before ++ place :: after ∧
      (∀ earlier ∈ before, ∃ endpoint, earlier.declare = .ok endpoint) ∧
      place.declare = .error failure ∧ place.Reported failure named := by
  obtain ⟨before, place, after, placed, declared, stuck⟩ := failing_place failed names
  exact ⟨before, place, after, placed, declared, stuck, Place.reported stuck names⟩

/-- A manifest with one endpoint in a route. -/
def inApi (spec : EndpointSpec) : Manifest where
  hosts := [{ hostname := "a.test", routes := [.mk "/api" [spec] []] }]

def marked : EndpointSpec where
  path := some "/x"
  verbs := ["static", "get"]
  file := some "/x.html"

theorem failures_name_places_marked :
    (inApi marked).toApplication = .error (.staticMarkerMixed "/api/x") ∧
      ∃ before place after, (inApi marked).places = before ++ place :: after ∧
        (∀ earlier ∈ before, ∃ endpoint, earlier.declare = .ok endpoint) ∧
        place.declare = .error (.staticMarkerMixed "/api/x") ∧
        place.Reported (.staticMarkerMixed "/api/x") "/api/x" := by
  have failed : (inApi marked).toApplication = .error (.staticMarkerMixed "/api/x") := by
    rfl
  exact ⟨failed, failures_name_places failed rfl⟩

def crowded : EndpointSpec where
  path := some "/x"
  file := some "/x.html"
  directory := some "/srv/x"

/-- Targets that are counted below a route: the error names another endpoint than the call does
that is made there with the same targets. -/
theorem targets_counted_by_own_path :
    (inApi crowded).toApplication = .error (.handlerCount "/x" 2) ∧
      (inApi crowded).places.map Place.pathname = ["/api/x"] ∧
      ((Declaration.inRoutes ["/api"] (.endpoint (.single .get)
        (.sorted ⟨"/x", [.file "/x.html", .file "/srv/x"]⟩) : Declaration FixedHandler)).make
          "").1 = .error (.handlerCount "/api/x" 2) :=
  ⟨rfl, rfl, rfl⟩

end Manifest

end VirtualHosts
