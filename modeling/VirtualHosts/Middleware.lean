/-
Middleware: handlers that run in front of the handlers of other endpoints,
each within the scope that its pathname describes.
-/

import VirtualHosts.Text

namespace VirtualHosts

def anyPath : String := "*"

structure Middleware (α : Type) where
  pathname : String
  handler : α
  deriving DecidableEq, Repr

namespace Middleware

/-- Whether a scope takes in a pathname, on lists of characters.  The empty
scope and the star take in everything; a final star or slash makes the rest a
beginning that must match literally; any other scope takes in itself and what
follows it after a slash. -/
def covers (scope pathname : List Char) : Bool :=
  if scope = [] ∨ scope = ['*'] then
    true
  else
    match Text.dropLast? '*' scope with
    | some beginning => beginning.isPrefixOf pathname
    | none =>
        if scope.getLast? = some '/' then
          scope.isPrefixOf pathname
        else
          match Text.dropBeginning? scope pathname with
          | some [] => true
          | some (c :: _) => c == '/'
          | none => false

def appliesTo {α : Type} (middleware : Middleware α) (pathname : String) : Bool :=
  covers middleware.pathname.toList pathname.toList

end Middleware

end VirtualHosts
