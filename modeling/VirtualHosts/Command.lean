/-
The commands: compiling a manifest, serving it, and checking it.

Checking reads and compiles as the others do, but is given nothing that could
write.  What logging puts on the standard output is given with each run.
-/

import VirtualHosts.Command.Request
import VirtualHosts.Delivery
import VirtualHosts.Dispatch
import VirtualHosts.HostsFile
import VirtualHosts.Manifest.Reading

namespace VirtualHosts.Command

inductive Failure where
  | config (error : ConfigError)
  | declaration (error : DeclarationError)
  | compilation (task : String) (error : CompilationError)
  deriving DecidableEq, Repr

namespace Failure

def innerCause : CompilationError → List String
  | .write _ error => [error.message]
  | .nestingTooDeep .. | .conflictingLocation .. | .conflictingRoutes _ | .backend _ => []

def chain : Failure → String × List String
  | config error => ((Error.config error).message, [])
  | declaration error => ((Error.declaration error).message, [error.message])
  | compilation task error => (task, error.message :: innerCause error)

def indented (first margin : String) (cause : String) : String :=
  first ++ ("\n" ++ margin).intercalate ((Text.lines cause.toList).map String.ofList)

def causeLines : List String → List String
  | [] => []
  | [cause] => [indented "    " "    " cause]
  | causes =>
      causes.mapIdx fun index cause => indented s!"    {index}: " "       " cause

def report (failure : Failure) : String :=
  let (top, causes) := failure.chain
  let below := if causes.isEmpty then []
    else ["", "Caused by:"] ++ causeLines causes
  "\n".intercalate (("Error: " ++ top) :: below) ++ "\n"

end Failure

/-- How a run ends: well, with a failure that is reported, or in a panic. -/
inductive Ending where
  | succeeded
  | failed (failure : Failure)
  | panicked (message : String)
  deriving DecidableEq, Repr

namespace Ending

def ofError (task : String) (error : CompilationError) : Ending :=
  match error.panic? with
  | some message => panicked message
  | none => failed (.compilation task error)

def exitCode : Ending → UInt32
  | succeeded => 0
  | failed _ => 1
  | panicked _ => 101

end Ending

/-- What logging puts on the standard output, where the program prints too.  Which
lines there are and what they look like is up to the environment and to the time, so
they are told by the part of the run that they come from. -/
structure LogLines where
  loading : String := ""
  compiling : String := ""
  starting : String := ""
  deriving DecidableEq, Repr

/-- Nothing is let through. -/
def LogLines.off : LogLines := {}

structure Finished where
  /-- The lines of logging, all of them in front of what is printed. -/
  logged : String
  printed : String
  ending : Ending

namespace Finished

/-- What stands on the standard output. -/
def output (finished : Finished) : String :=
  finished.logged ++ finished.printed

def exitCode (finished : Finished) : UInt32 :=
  finished.ending.exitCode

end Finished

/-- How a process is started: it gets an address and the registrations, and says
where it listens. -/
abbrev Listen (m : Type → Type) :=
  (address : String) → List (Registration FixedHandler) → m (Except BackendError String)

section

variable {m : Type → Type} [Monad m]

/-- The settings of a run: those of the settings file if one is given, else those
of the manifest, else the defaults. -/
def resolveSettings (read : String → m (Except FileError String)) (manifest : Manifest) :
    Option String → m (Except Failure Settings)
  | some name => do
      return (Settings.ofFile name (← read name)).mapError .config
  | none => return .ok (manifest.settings.getD {})

def load (read : String → m (Except FileError String)) (sources : Sources) :
    m (Except Failure (Manifest × Settings)) := do
  match Manifest.ofFile sources.manifest (← read sources.manifest) with
  | .error error => return .error (.config error)
  | .ok manifest =>
      return (← resolveSettings read manifest sources.settings).map fun settings =>
        (manifest, settings)

def Overrides.apply (overrides : Overrides) (settings : Settings) : Settings :=
  let settings := { settings with outputPath := overrides.output.getD settings.outputPath }
  if overrides.noHosts then
    { settings with hostsFile := { settings.hostsFile with manage := false } }
  else
    settings

def stopped (logged : String) (ending : Ending) : Finished :=
  ⟨logged, "", ending⟩

def succeeded (logged printed : String) : Finished :=
  ⟨logged, printed, .succeeded⟩

def surroundings (files : FileSystem m) (settings : Settings) : Surroundings m :=
  ⟨files.write, HostsFile.setAlias files settings.hostsFile.path⟩

def compile (files : FileSystem m) (logs : LogLines) (sources : Sources)
    (overrides : Overrides) : m Finished := do
  match ← load files.read sources with
  | .error failure => return stopped logs.loading (.failed failure)
  | .ok (manifest, loaded) =>
      let settings := overrides.apply loaded
      match manifest.toApplication with
      | .error error => return stopped logs.loading (.failed (.declaration error))
      | .ok app =>
          let logged := logs.loading ++ logs.compiling
          match ← Compilation.deliver settings Dispatch.backend
              (surroundings files settings) app with
          | .error error => return stopped logged (.ofError "Compilation failed" error)
          | .ok compilation =>
              let hosts := app.hosts.length
              let registrations := compilation.registrations
              return succeeded logged
                s!"✅ Wrote {settings.outputPath} ({hosts} hosts, {registrations} process endpoints)\n"

/-- The run is told up to the point where the process answers requests.  What is logged from
there on, and how it ends, is not. -/
def serve (files : FileSystem m) (listen : Listen m) (logs : LogLines) (sources : Sources)
    (overrides : Overrides) : m Finished := do
  match ← load files.read sources with
  | .error failure => return stopped logs.loading (.failed failure)
  | .ok (manifest, loaded) =>
      let settings := overrides.apply loaded
      match manifest.toApplication with
      | .error error => return stopped logs.loading (.failed (.declaration error))
      | .ok app =>
          let logged := logs.loading ++ logs.compiling ++ logs.starting
          match ← Compilation.run settings Dispatch.backend (surroundings files settings)
              listen app with
          | .error error => return stopped logged (.ofError "Failed to start" error)
          | .ok (_, none) =>
              return succeeded logged
                "✅ Configuration written, no process endpoints to serve\n"
          | .ok (_, some address) =>
              return succeeded logged s!"🚀 Process handlers running on http://{address}\n"

def validate (read : String → m (Except FileError String)) (logs : LogLines)
    (sources : Sources) (print : Bool) : m Finished := do
  match ← load read sources with
  | .error failure => return stopped logs.loading (.failed failure)
  | .ok (manifest, settings) =>
      match manifest.toApplication with
      | .error error => return stopped logs.loading (.failed (.declaration error))
      | .ok app =>
          let logged := logs.loading ++ logs.compiling
          match Compilation.build settings Dispatch.backend app with
          | .error error => return stopped logged (.ofError "Compilation failed" error)
          | .ok compilation =>
              let hosts := app.hosts.length
              let registrations := compilation.registrations
              let printed := if print then compilation.render ++ "\n" else ""
              return succeeded logged (printed ++
                s!"✅ Manifest is valid ({hosts} hosts, {registrations} process endpoints)\n")

def run (files : FileSystem m) (listen : Listen m) (logs : LogLines) : Request → m Finished
  | .compile sources overrides => compile files logs sources overrides
  | .serve sources overrides => serve files listen logs sources overrides
  | .validate sources print => validate files.read logs sources print
  | .version => return succeeded "" s!"Panela v{programVersion}\n"
  | .printText text => return succeeded "" text

end

end VirtualHosts.Command
