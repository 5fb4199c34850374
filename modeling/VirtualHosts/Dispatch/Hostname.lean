/-
Hostnames as requests and declarations are compared by them.
-/

import VirtualHosts.Text

namespace VirtualHosts.Dispatch

def bracketed : List Char → List Char
  | [] => []
  | c :: rest => if c = ']' then [c] else c :: bracketed rest

def beforePort (host : List Char) : List Char :=
  match (host.reverse.dropWhile (· != ':')) with
  | [] => host
  | _ :: name => name.reverse

/-- A host without blanks around it, without its port, and in small letters. -/
def normalizeHost (host : String) : String :=
  let host := Text.trim host.toList
  let name := if host.head? = some '[' then bracketed host else beforePort host
  Text.lower (.ofList name)

end VirtualHosts.Dispatch
