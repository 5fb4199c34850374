/-
Endpoints: a pathname, the verbs it answers to, and the one target that
answers.  How an endpoint is served follows from its target and its verbs.
-/

import VirtualHosts.Declaration.Error
import VirtualHosts.FilePath
import VirtualHosts.Verb

namespace VirtualHosts

/-- What answers an endpoint: a file or directory that the web server reads, or
a handler that runs in the process.  `α` is the type of handlers. -/
inductive Target (α : Type) where
  | file (path : String)
  | process (handler : α)
  deriving DecidableEq, Repr

inductive ServingMode where
  | static
  | file
  | process
  deriving DecidableEq, Repr

namespace ServingMode

def name : ServingMode → String
  | static => "static"
  | file => "file"
  | process => "process"

def nginxServed : ServingMode → Bool
  | process => false
  | static | file => true

end ServingMode

structure Endpoint (α : Type) where
  pathname : String
  verbs : VerbSet
  target : Target α
  deriving DecidableEq

namespace Endpoint

variable {α : Type}

/-- The checks of a declaration, in the order in which they are reported: the
pathname, the verbs, then the number and kind of the targets. -/
def declare (pathname : String) (verbs : VerbSet) (targets : List (Target α)) :
    Except DeclarationError (Endpoint α) :=
  if pathname.isEmpty then
    .error .emptyPathname
  else if verbs.isEmpty then
    .error (.missingVerbs pathname)
  else if verbs.isMixed then
    .error (.staticMarkerMixed pathname)
  else
    match targets with
    | [.file path] => .ok ⟨pathname, verbs, .file path⟩
    | [.process handler] =>
        if verbs.isStatic then .error (.staticRequiresDirectory pathname)
        else .ok ⟨pathname, verbs, .process handler⟩
    | _ => .error (.handlerCount pathname targets.length)

def mode (endpoint : Endpoint α) : ServingMode :=
  match endpoint.target with
  | .process _ => .process
  | .file _ => if endpoint.verbs.isStatic then .static else .file

def filePath? (endpoint : Endpoint α) : Option String :=
  match endpoint.target with
  | .file path => some path
  | .process _ => none

/-- The name of the served file.  A path that ends in no name stands for
itself, without the slashes at its ends. -/
def fileName? (endpoint : Endpoint α) : Option String :=
  endpoint.filePath?.map fun path =>
    .ofList ((FilePath.fileName? path).getD (Text.stripBoth '/' path.toList))

def handler? (endpoint : Endpoint α) : Option α :=
  match endpoint.target with
  | .file _ => none
  | .process handler => some handler

end Endpoint

end VirtualHosts
