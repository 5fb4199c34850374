/-
The text of a configuration tree.

Entries stand on lines of their own, indented by their depth.  A block near the
root is set off by an empty line, except in the body of a location.
-/

import VirtualHosts.Nginx.Tree

namespace VirtualHosts.Nginx

def indent (depth : Nat) : String :=
  "".pushn ' ' (2 * depth)

def directiveText (name value : String) : String :=
  name ++ " " ++ value ++ ";"

def blockText (depth : Nat) (spaced : Bool) (name body : String) : String :=
  let spacer := if spaced && decide (depth ≤ 1) then "\n" else ""
  spacer ++ indent depth ++ name ++ " \x7b\n" ++ body ++ "\n" ++ indent depth ++ "\x7d"

mutual

/-- An entry of a block of some depth; `spaced` says whether that block sets off
the blocks in it. -/
def Entry.render (depth : Nat) (spaced : Bool) : Entry → String
  | .directive name value => indent depth ++ directiveText name value
  | .clause name inner entries =>
      blockText depth spaced name ("\n".intercalate (Entry.renderAll inner true entries))
  | .location path inner entries =>
      blockText depth spaced (locationName path)
        ("\n".intercalate (Entry.renderAll inner false entries))

def Entry.renderAll (depth : Nat) (spaced : Bool) : List Entry → List String
  | [] => []
  | entry :: rest => entry.render depth spaced :: Entry.renderAll depth spaced rest

end

def Clause.render (clause : Clause) : String :=
  "\n".intercalate (Entry.renderAll clause.depth true clause.entries)

def Location.render (location : Location) : String :=
  "\n".intercalate (Entry.renderAll location.depth false location.entries)

end VirtualHosts.Nginx
