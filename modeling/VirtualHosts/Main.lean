/-
The program on real files.  It does not open sockets: a manifest with endpoints
for the process can be compiled and checked, but not served.  It does not log.
-/

import VirtualHosts.Command

namespace VirtualHosts

def FileError.ofError : IO.Error → FileError
  | .noFileOrDirectory .. => .notFound
  | .permissionDenied .. => .permissionDenied
  | .inappropriateType .. => .isDirectory
  | error => .other (toString error)

def attempt {β : Type} (action : IO β) : IO (Except FileError β) := do
  try
    return .ok (← action)
  catch error =>
    return .error (.ofError error)

def readText (path : String) : IO (Except FileError String) := do
  return (← attempt (IO.FS.readBinFile path)).bind fun bytes =>
    match String.fromUTF8? bytes with
    | some text => .ok text
    | none => .error .notText

def appendText (path text : String) : IO (Except FileError Unit) :=
  attempt do
    let file ← IO.FS.Handle.mk path .append
    file.putStr text

def realFiles : FileSystem IO where
  read := readText
  write path text := attempt (IO.FS.writeFile path text)
  append := appendText

def listenNowhere : Command.Listen IO := fun _ _ =>
  return .error (.server "listening is not supported")

end VirtualHosts

open VirtualHosts in
def main (arguments : List String) : IO UInt32 := do
  match Command.Request.ofArguments arguments with
  | .error error =>
      IO.eprint s!"error: {error.message}\n"
      return 2
  | .ok request =>
      let finished ← Command.run realFiles listenNowhere .off request
      IO.print finished.output
      match finished.ending with
      | .succeeded => pure ()
      | .failed failure => IO.eprint failure.report
      | .panicked message => IO.eprint s!"{message}\n"
      return finished.exitCode
