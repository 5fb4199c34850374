/-
Files, as far as the library touches them.

The operations are given by the surroundings.  `Disk` is a disk in memory: what
it holds, the directories it has, and what every operation does to it.
-/

import VirtualHosts.Error
import VirtualHosts.Text

namespace VirtualHosts

structure FileSystem (m : Type → Type) where
  read : (path : String) → m (Except FileError String)
  write : (path text : String) → m (Except FileError Unit)
  append : (path text : String) → m (Except FileError Unit)

inductive Content where
  | text (text : String)
  | bytes (raw : List UInt8)
  deriving DecidableEq, Repr

/-- A place on a disk: the names on the way to it from the root. -/
abbrev Place := List String

def rootDirectories : List String :=
  ["bin", "dev", "etc", "home", "lib", "opt", "proc", "root", "run", "sbin", "sys", "tmp",
    "usr", "var"]

def workingDirectory : Place := ["tmp", "work"]

def Place.ofName (name : String) : Place :=
  workingDirectory ++ (Text.segments name.toList).map String.ofList

def Place.name? (place : Place) : Option String :=
  if workingDirectory.isPrefixOf place then
    some ("/".intercalate (place.drop workingDirectory.length))
  else none

structure Disk where
  files : List (Place × Content) := []
  directories : List Place := []
  deriving DecidableEq, Repr

namespace Disk

/-- The root and the working directory are always there, and so is every directory
on the way to a file or directory. -/
def isDirectory (disk : Disk) (place : Place) : Bool :=
  place.isPrefixOf workingDirectory || rootDirectories.any ([·] == place) ||
    disk.directories.any (place.isPrefixOf ·) ||
    disk.files.any fun (file, _) => place.isPrefixOf file && place != file

def content? (disk : Disk) (place : Place) : Option Content :=
  disk.files.lookup place

def put (disk : Disk) (place : Place) (content : Content) : Disk :=
  if disk.files.any (·.1 == place) then
    { disk with
      files := disk.files.map fun file => if file.1 = place then (place, content) else file }
  else
    { disk with files := disk.files ++ [(place, content)] }

def enter (disk : Disk) (directory : Place) (name : String) : Except FileError Place :=
  if name = "" ∨ name = "." then .ok directory
  else if name = ".." then .ok directory.dropLast
  else if 255 < name.utf8ByteSize then .error .nameTooLong
  else if disk.isDirectory (directory ++ [name]) then .ok (directory ++ [name])
  else if (disk.content? (directory ++ [name])).isSome then .error .notDirectory
  else .error .notFound

inductive Target where
  | directory
  | file (place : Place) (content : Content)
  | free (place : Place)

/-- What the end of a path leads to in a directory.  `slash` says that a slash
follows the name, so that it is meant as a directory, and `making` that a file is
wanted in any case. -/
def arrive (disk : Disk) (making slash : Bool) (directory : Place) (name : String) :
    Except FileError Target :=
  let place := directory ++ [name]
  if name = "" ∨ name = "." ∨ name = ".." ∨ (making ∧ slash) then .ok .directory
  else if 255 < name.utf8ByteSize then .error .nameTooLong
  else if disk.isDirectory place then .ok .directory
  else
    match disk.content? place with
    | some content => if slash then .error .notDirectory else .ok (.file place content)
    | none => .ok (.free place)

/-- Follows a path, which has less than 4096 bytes. -/
def follow (disk : Disk) (making : Bool) (path : String) : Except FileError Target := do
  let chars := path.toList
  if chars.contains '\x00' then throw .nulInPath
  if chars.isEmpty then throw .notFound
  if 4096 ≤ path.utf8ByteSize then throw .nameTooLong
  let body := Text.stripEnd '/' chars
  let names := (Text.segments body).map String.ofList
  let start := if chars.head? = some '/' then [] else workingDirectory
  let directory ← names.dropLast.foldlM disk.enter start
  disk.arrive making (body.length < chars.length) directory (names.getLast?.getD "")

def read (path : String) : StateM Disk (Except FileError String) := do
  match (← get).follow false path with
  | .ok .directory => return .error .isDirectory
  | .ok (.file _ (.text text)) => return .ok text
  | .ok (.file _ (.bytes _)) => return .error .notText
  | .ok (.free _) => return .error .notFound
  | .error error => return .error error

def write (path text : String) : StateM Disk (Except FileError Unit) := do
  match (← get).follow true path with
  | .ok .directory => return .error .isDirectory
  | .ok (.file place _) | .ok (.free place) =>
      modify (·.put place (.text text))
      return .ok ()
  | .error error => return .error error

/-- Bytes that are no text stay in front of what is added. -/
def append (path text : String) : StateM Disk (Except FileError Unit) := do
  match (← get).follow true path with
  | .ok .directory => return .error .isDirectory
  | .ok (.file place (.text before)) =>
      modify (·.put place (.text (before ++ text)))
      return .ok ()
  | .ok (.file place (.bytes before)) =>
      modify (·.put place (.bytes (before ++ text.toUTF8.toList)))
      return .ok ()
  | .ok (.free place) =>
      modify (·.put place (.text text))
      return .ok ()
  | .error error => return .error error

def fileSystem : FileSystem (StateM Disk) := ⟨read, write, append⟩

end Disk

end VirtualHosts
