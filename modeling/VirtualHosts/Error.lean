/-
What can go wrong, by cause, with the text that reports it.
-/

import VirtualHosts.Declaration.Error

namespace VirtualHosts

inductive FileError where
  | notFound
  | isDirectory
  | notDirectory
  | permissionDenied
  | nameTooLong
  | nulInPath
  | notText
  | other (message : String)
  deriving DecidableEq, Repr

def FileError.message : FileError → String
  | notFound => "No such file or directory (os error 2)"
  | isDirectory => "Is a directory (os error 21)"
  | notDirectory => "Not a directory (os error 20)"
  | permissionDenied => "Permission denied (os error 13)"
  | nameTooLong => "File name too long (os error 36)"
  | nulInPath => "file name contained an unexpected NUL byte"
  | notText => "stream did not contain valid UTF-8"
  | other message => message

inductive ConfigError where
  | invalidJson
  | invalidToml
  | invalidJsonManifest
  | invalidTomlManifest
  | unknownFormat (extension : String)
  | unreadSettings (name : String) (error : FileError)
  | unreadManifest (name : String) (error : FileError)
  deriving DecidableEq, Repr

def ConfigError.message : ConfigError → String
  | invalidJson => "Invalid JSON"
  | invalidToml => "Invalid TOML"
  | invalidJsonManifest => "Invalid JSON manifest"
  | invalidTomlManifest => "Invalid TOML manifest"
  | unknownFormat extension => s!"Unknown settings format: {extension}"
  | unreadSettings name error => s!"Failed to read settings file {name}: {error.message}"
  | unreadManifest name error => s!"Failed to read manifest {name}: {error.message}"

inductive InsertError where
  /-- The text of the route that it cannot be told from. -/
  | conflict (earlier : String)
  | invalidParameter
  | sharedSegment
  | catchAllNotLast
  deriving DecidableEq, Repr

def InsertError.message : InsertError → String
  | conflict earlier =>
      "Insertion failed due to conflict with previously registered route: " ++ earlier
  | invalidParameter => "Parameters must be registered with a valid name"
  | sharedSegment => "Only one parameter is allowed per path segment"
  | catchAllNotLast => "Catch-all parameters are only allowed at the end of a route"

/-- What keeps a route out of a set of routes. -/
inductive InsertStop where
  | refused (reason : InsertError)
  /-- No error is returned: the whole program ends there, with this text. -/
  | panicked (message : String)
  deriving DecidableEq, Repr

inductive BackendError where
  | conflictingRoute (route hostname : String) (port : UInt16) (reason : InsertError)
  | server (message : String)
  | internal (message : String)
  /-- A panic.  It is handed on like an error up to the end of the program, which is another
  one than after an error. -/
  | panicked (message : String)
  deriving DecidableEq, Repr

def BackendError.ofStop (route hostname : String) (port : UInt16) : InsertStop → BackendError
  | .refused reason => conflictingRoute route hostname port reason
  | .panicked message => panicked message

def BackendError.message : BackendError → String
  | conflictingRoute route hostname port reason =>
      s!"Server error: Conflicting route {route} on host {hostname}:{port.toNat}: " ++
        reason.message
  | server message => "Server error: " ++ message
  | internal message => "Internal error: " ++ message
  | panicked message => message

/-- Why a compilation stops.  Nothing is written then. -/
inductive CompilationError where
  | nestingTooDeep (pathname : String) (limit : Nat)
  | conflictingLocation (hostname pathname first second : String)
  | write (path : String) (error : FileError)
  | conflictingRoutes (error : BackendError)
  | backend (error : BackendError)
  deriving DecidableEq, Repr

def CompilationError.message : CompilationError → String
  | nestingTooDeep pathname limit =>
      s!"Route '{pathname}' is nested deeper than the limit of {limit}"
  | conflictingLocation hostname pathname first second =>
      s!"Location '{pathname}' on host '{hostname}' is declared as both {first} and {second}"
  | write path error => s!"Failed to write configuration to {path}: {error.message}"
  | conflictingRoutes error =>
      "Process-handler routes cannot be served together: " ++ error.message
  | backend error => "Process-handler server failed: " ++ error.message

/-- The text of the panic, if it is none that is returned. -/
def CompilationError.panic? : CompilationError → Option String
  | conflictingRoutes (.panicked message) | backend (.panicked message) => some message
  | _ => none

inductive Error where
  | config (error : ConfigError)
  | declaration (error : DeclarationError)
  | compilation (error : CompilationError)
  deriving DecidableEq, Repr

def Error.message : Error → String
  | config error => "Configuration error: " ++ error.message
  | declaration error => "Declaration error: " ++ error.message
  | compilation error => "Compilation error: " ++ error.message

end VirtualHosts
