/-
Names inside file paths.  A path is cut at its slashes; empty parts and single
dots say nothing, and a double dot names no file.
-/

import VirtualHosts.Text

namespace VirtualHosts.FilePath

def parts (path : String) : List (List Char) :=
  (Text.segments path.toList).filter fun part => part != [] && part != ['.']

def fileName? (path : String) : Option (List Char) :=
  (parts path).getLast?.filter (· != ['.', '.'])

/-- The text after the last dot of the file name.  A dot at the start of the
name is part of it. -/
def extension? (path : String) : Option String :=
  (fileName? path).bind fun name =>
    match (Text.pieces (· == '.') name).reverse with
    | [] | [_] | [_, []] => none
    | last :: _ => some (.ofList last)

end VirtualHosts.FilePath
