/-
Aliases of the own machine in a hosts file.

A line is read up to its first number sign.  Its first word is an address, and
the words after it are names for that address.
-/

import VirtualHosts.FileSystem

namespace VirtualHosts.HostsFile

def loopback : String := "127.0.0.1"

def lineNames (line : List Char) : List String :=
  match (Text.fields (line.takeWhile (· != '#'))).map String.ofList with
  | address :: names => if address = loopback then names else []
  | [] => []

def hasAlias (content hostname : String) : Bool :=
  (Text.lines content.toList).any fun line =>
    (lineNames line).any (Text.sameIgnoringCase · hostname)

def addition (content hostname : String) : String :=
  (if content.isEmpty || content.toList.getLast? == some '\n' then "" else "\n") ++
    loopback ++ " " ++ hostname ++ "\n"

/-- Adds an alias unless it is there already, and tells whether it was added.  A
missing file counts as empty.

The end of a line that has none yet and the alias behind it are appended at once.
Written one after the other they leave the same, unless the second write fails after
the first, which is not told here. -/
def setAlias {m : Type → Type} [Monad m] (files : FileSystem m) (path hostname : String) :
    m (Except FileError Bool) := do
  let found : Except FileError String ← do
    match ← files.read path with
    | .error .notFound => pure (.ok "")
    | other => pure other
  match found with
  | .error error => return .error error
  | .ok content =>
      if hasAlias content hostname then
        return .ok false
      else
        return (← files.append path (addition content hostname)).map fun () => true

end VirtualHosts.HostsFile
