/-
Manifests: an application described as data, with handlers that answer in a
fixed way.
-/

import VirtualHosts.Application
import VirtualHosts.Http.Message
import VirtualHosts.Settings

namespace VirtualHosts

inductive FixedHandler where
  /-- A status, a body, and headers.  The headers are added in the order of their
  names; pairs that are no valid header are left out. -/
  | respond (status : Nat) (body : String) (headers : List (String × String))
  | redirect (place : String) (code : Nat)
  deriving DecidableEq, Repr

namespace FixedHandler

def sortByName (pairs : List (String × String)) : List (String × String) :=
  pairs.mergeSort fun left right => decide (left.1 ≤ right.1)

def response : FixedHandler → Http.Response
  | respond status body headers =>
      (Http.Response.withBody status body).withHeaders (sortByName headers)
  | redirect place code => .redirect place code

def run (handler : FixedHandler) (_ : Http.Request) : Http.Flow :=
  .respond handler.response

end FixedHandler

namespace Manifest

structure FixedResponse where
  status : UInt16 := 200
  body : String := ""
  headers : List (String × String) := []
  deriving DecidableEq, Repr

structure FixedRedirect where
  place : String
  code : UInt16 := 302
  deriving DecidableEq, Repr

/-- An endpoint of a manifest.  Exactly one of its last four fields is to be set. -/
structure EndpointSpec where
  path : Option String := none
  /-- Names of verbs; `all` stands for every request method, and none at all for
  `get`. -/
  verbs : List String := []
  file : Option String := none
  directory : Option String := none
  respond : Option FixedResponse := none
  redirect : Option FixedRedirect := none
  deriving DecidableEq, Repr

inductive RouteSpec where
  | mk (path : String) (endpoints : List EndpointSpec) (routes : List RouteSpec)

structure HostSpec where
  hostname : String
  port : Option UInt16 := none
  root : Option String := none
  options : List (String × String) := []
  endpoints : List EndpointSpec := []
  routes : List RouteSpec := []

namespace EndpointSpec

def targets (spec : EndpointSpec) : Nat :=
  [spec.file.isSome, spec.directory.isSome, spec.respond.isSome, spec.redirect.isSome].count
    true

def verbsNamed (name : String) : Except DeclarationError VerbSet :=
  if Text.sameIgnoringCase name "all" then .ok .every
  else (DeclarationError.orUnknown name (Verb.ofName? name)).map .single

def verbSet (spec : EndpointSpec) : Except DeclarationError VerbSet :=
  if spec.verbs.isEmpty then .ok (.single .get)
  else (spec.verbs.mapM verbsNamed).map (·.foldl VerbSet.union .empty)

def target? (spec : EndpointSpec) : Option (Target FixedHandler) :=
  ((spec.file.map .file).or
    (spec.respond.map fun answer =>
      .process (.respond answer.status.toNat answer.body answer.headers))).or
    (spec.redirect.map fun redirect =>
      .process (.redirect redirect.place redirect.code.toNat))

/-- The endpoint under a pathname.  Errors about the number of targets name the
endpoint's own path. -/
def declare (parent : String) (spec : EndpointSpec) :
    Except DeclarationError (Endpoint FixedHandler) := do
  let path := spec.path.getD anyPath
  if spec.targets ≠ 1 then
    throw (.handlerCount path spec.targets)
  match spec.directory with
  | some directory =>
      Endpoint.under parent (.single .static) (.sorted ⟨path, [.file directory]⟩)
  | none => do
      let verbs ← spec.verbSet
      Endpoint.under parent verbs (.sorted ⟨path, spec.target?.toList⟩)

end EndpointSpec

mutual

/-- The route under a pathname, with everything in it: endpoints first. -/
def RouteSpec.declare (parent : String) :
    RouteSpec → Except DeclarationError (Route FixedHandler)
  | .mk path endpoints routes => do
      let declared ← endpoints.mapM (EndpointSpec.declare (parent ++ path))
      let inner ← RouteSpec.declareAll (parent ++ path) routes
      return ⟨parent ++ path, declared.map .endpoint ++ inner.map Route.toEntry⟩

def RouteSpec.declareAll (parent : String) :
    List RouteSpec → Except DeclarationError (List (Route FixedHandler))
  | [] => .ok []
  | spec :: rest => do
      return (← spec.declare parent) :: (← RouteSpec.declareAll parent rest)

end

namespace HostSpec

def hostOptions (spec : HostSpec) : HostOptions :=
  { port := spec.port.getD 80, root := spec.root, extra := spec.options }

def declare (spec : HostSpec) : Except DeclarationError (Host FixedHandler) := do
  let host : Host FixedHandler ← Host.declare spec.hostname spec.hostOptions
  let base ← spec.endpoints.mapM (EndpointSpec.declare "")
  let routes ← RouteSpec.declareAll "" spec.routes
  return { host with base := base.map .endpoint, routes }

end HostSpec

end Manifest

structure Manifest where
  settings : Option Settings := none
  engines : List Named := []
  databases : List Named := []
  hosts : List Manifest.HostSpec := []

namespace Manifest

def toApplication (manifest : Manifest) :
    Except DeclarationError (Application FixedHandler) := do
  let app ← manifest.engines.foldlM Application.addEngine {}
  let app ← manifest.databases.foldlM Application.addDatabase app
  let hosts ← manifest.hosts.mapM HostSpec.declare
  return hosts.foldl Application.addHost app

end Manifest

end VirtualHosts
