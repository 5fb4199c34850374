/-
The declaration language of routes and hosts.

A declaration is read under the pathname of the route it is made on.  It yields
one entry or an error; nothing is added when it fails.  A route's body runs
before the route is added, so that a body that fails adds nothing either.
-/

import VirtualHosts.Host

namespace VirtualHosts

inductive Argument (α : Type) where
  | text (text : String)
  | callable (handler : α)

structure Arguments (α : Type) where
  pathname : String
  targets : List (Target α)

namespace Arguments

variable {α : Type}

def target : Argument α → Target α
  | .text path => .file path
  | .callable handler => .process handler

/-- A text at the front is the pathname and everything after it a target;
otherwise every argument is a target, and any path is meant. -/
def ofList : List (Argument α) → Except DeclarationError (Arguments α)
  | [] => .error .missingArguments
  | .text pathname :: rest => .ok ⟨pathname, rest.map target⟩
  | .callable handler :: rest => .ok ⟨anyPath, .process handler :: rest.map target⟩

end Arguments

inductive Given (α : Type) where
  | plain (arguments : List (Argument α))
  | sorted (arguments : Arguments α)

def Given.arguments {α : Type} : Given α → Except DeclarationError (Arguments α)
  | .plain given => Arguments.ofList given
  | .sorted given => .ok given

def VerbSet.ofNames (names : List String) : Except DeclarationError VerbSet :=
  (names.mapM fun name => DeclarationError.orUnknown name (Verb.ofName? name)).map
    VerbSet.ofList

def Endpoint.under {α : Type} (parent : String) (verbs : VerbSet) (given : Given α) :
    Except DeclarationError (Endpoint α) := do
  let arguments ← given.arguments
  Endpoint.declare (parent ++ arguments.pathname) verbs arguments.targets

/-- Middleware declared under a pathname.  The star alone stays as it is, so
that it takes in every path. -/
def Middleware.under {α : Type} (parent : String) (given : Given α) :
    Except DeclarationError (Middleware α) := do
  let arguments ← given.arguments
  let pathname :=
    if arguments.pathname = anyPath then anyPath else parent ++ arguments.pathname
  match arguments.targets with
  | [.process handler] => .ok ⟨pathname, handler⟩
  | _ => .error (.middlewareRequiresCallable pathname)

inductive Declaration (α : Type) where
  | endpoint (verbs : VerbSet) (given : Given α)
  | named (verbs : List String) (given : Given α)
  | directory (pathname path : String)
  | middleware (given : Given α)
  /-- A route.  A lenient body goes on after an error and the route is added;
  any other stops at its first error, which becomes the route's. -/
  | route (suffix : String) (lenient : Bool) (body : List (Declaration α))

/-- What came of a declaration: its error, the number of entries of the receiver
afterwards, and what came of the declarations in its body. -/
inductive Outcome where
  | made (error : Option DeclarationError) (entries : Nat) (body : List Outcome)

namespace Declaration

variable {α : Type}

mutual

def make (parent : String) :
    Declaration α → Except DeclarationError (Entry α) × List Outcome
  | .endpoint verbs given => ((Endpoint.under parent verbs given).map .endpoint, [])
  | .named names given =>
      (do return .endpoint (← Endpoint.under parent (← VerbSet.ofNames names) given), [])
  | .directory pathname path =>
      ((Endpoint.under parent (.single .static) (.sorted ⟨pathname, [.file path]⟩)).map
        .endpoint, [])
  | .middleware given => ((Middleware.under parent given).map .middleware, [])
  | .route suffix lenient body =>
      match makeAll (parent ++ suffix) lenient [] body with
      | (entries, outcomes, none) => (.ok (.route (parent ++ suffix) entries), outcomes)
      | (_, outcomes, some error) => (.error error, outcomes)

/-- Runs a body on the entries of a route.  The last part is the error that
stopped it. -/
def makeAll (pathname : String) (lenient : Bool) (entries : List (Entry α)) :
    List (Declaration α) → List (Entry α) × List Outcome × Option DeclarationError
  | [] => (entries, [], none)
  | declaration :: rest =>
      match make pathname declaration with
      | (.ok entry, inner) =>
          let entries := entries ++ [entry]
          let (final, outcomes, failure) := makeAll pathname lenient entries rest
          (final, .made none entries.length inner :: outcomes, failure)
      | (.error error, inner) =>
          let outcome := .made (some error) entries.length inner
          if lenient then
            let (final, outcomes, failure) := makeAll pathname lenient entries rest
            (final, outcome :: outcomes, failure)
          else
            (entries, [outcome], some error)

end

end Declaration

/-- Makes declarations on a host; an error leaves the host as it was, and the
next declaration follows. -/
def Host.declareAll {α : Type} (host : Host α) :
    List (Declaration α) → Host α × List Outcome
  | [] => (host, [])
  | declaration :: rest =>
      match declaration.make "" with
      | (.ok entry, inner) =>
          let host := host.push entry
          let (final, outcomes) := host.declareAll rest
          (final, .made none host.base.length inner :: outcomes)
      | (.error error, inner) =>
          let (final, outcomes) := host.declareAll rest
          (final, .made (some error) host.base.length inner :: outcomes)

end VirtualHosts
