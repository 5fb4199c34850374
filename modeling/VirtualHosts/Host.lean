/-
Virtual hosts.  What is declared on a host itself stands in its base; routes
declared on it are kept in a list of their own.
-/

import VirtualHosts.Route

namespace VirtualHosts

structure HostOptions where
  port : UInt16 := 80
  root : Option String := none
  extra : List (String × String) := []
  deriving DecidableEq, Repr

structure Host (α : Type) where
  hostname : String
  options : HostOptions
  base : List (Entry α)
  routes : List (Route α)

namespace Host

variable {α : Type}

/-- A host without entries.  Its name must have a character that is not blank;
it is kept as it was written. -/
def declare (hostname : String) (options : HostOptions) : Except DeclarationError (Host α) :=
  if Text.isBlankText hostname then .error .missingHostname
  else .ok ⟨hostname, options, [], []⟩

/-- Adds an entry at the end: a route to the routes, anything else to the base. -/
def push (host : Host α) : Entry α → Host α
  | .route pathname entries => { host with routes := host.routes ++ [⟨pathname, entries⟩] }
  | entry => { host with base := host.base ++ [entry] }

def routeNamed? (host : Host α) (pathname : String) : Option (Route α) :=
  host.routes.find? (·.pathname == pathname)

def endpoints (host : Host α) : List (Endpoint α) :=
  Entry.listEndpoints host.base ++ host.routes.flatMap Route.endpoints

end Host

end VirtualHosts
