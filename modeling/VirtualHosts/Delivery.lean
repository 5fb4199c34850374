/-
Delivery of a compiled application: writing the configuration, adding aliases,
and starting the process.

Nothing is written unless the whole application compiles.  Aliases come after
the configuration, each for itself: that one fails says nothing about the
others, and does not fail the delivery.
-/

import VirtualHosts.Compilation
import VirtualHosts.FileSystem

namespace VirtualHosts

structure Surroundings (m : Type → Type) where
  write : (path text : String) → m (Except FileError Unit)
  setAlias : (hostname : String) → m (Except FileError Bool)

namespace Compilation

variable {α : Type} {m : Type → Type} [Monad m]

/-- Asks for an alias for each name, whatever comes of it. -/
def setAliases (surroundings : Surroundings m) : List String → m Unit
  | [] => pure ()
  | hostname :: rest => do
      let _ ← surroundings.setAlias hostname
      setAliases surroundings rest

/-- Compiles an application, writes its configuration, and adds its aliases. -/
def deliver (settings : Settings) (backend : Backend α) (surroundings : Surroundings m)
    (app : Application α) : m (Except CompilationError (Compilation α)) := do
  match build settings backend app with
  | .error error => return .error error
  | .ok compilation =>
      match ← surroundings.write settings.outputPath compilation.render with
      | .error error => return .error (.write settings.outputPath error)
      | .ok () =>
          if settings.hostsFile.manage then
            setAliases surroundings compilation.aliases
          return .ok compilation

def run {ρ : Type} (settings : Settings) (backend : Backend α)
    (surroundings : Surroundings m)
    (listen : (address : String) → List (Registration α) → m (Except BackendError ρ))
    (app : Application α) : m (Except CompilationError (Compilation α × Option ρ)) := do
  match ← deliver settings backend surroundings app with
  | .error error => return .error error
  | .ok compilation =>
      match compilation.backend with
      | none => return .ok (compilation, none)
      | some registrations =>
          match ← listen settings.proxy.socketAddress registrations with
          | .error error => return .error (.backend error)
          | .ok running => return .ok (compilation, some running)

end Compilation

end VirtualHosts
