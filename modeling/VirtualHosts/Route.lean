/-
Routes: endpoints, middleware and further routes under one pathname, in the
order of their declaration.
-/

import VirtualHosts.Endpoint
import VirtualHosts.Middleware

namespace VirtualHosts

inductive Entry (α : Type) where
  | endpoint (declared : Endpoint α)
  | middleware (declared : Middleware α)
  | route (pathname : String) (entries : List (Entry α))

structure Route (α : Type) where
  pathname : String
  entries : List (Entry α)

namespace Entry

variable {α : Type}

mutual

/-- The endpoints of an entry, in the order in which they are met when every
route is followed to its end before the next entry. -/
def endpoints : Entry α → List (Endpoint α)
  | .endpoint declared => [declared]
  | .middleware _ => []
  | .route _ entries => listEndpoints entries

def listEndpoints : List (Entry α) → List (Endpoint α)
  | [] => []
  | entry :: rest => entry.endpoints ++ listEndpoints rest

end

end Entry

namespace Route

variable {α : Type}

def toEntry (route : Route α) : Entry α :=
  .route route.pathname route.entries

def endpoints (route : Route α) : List (Endpoint α) :=
  Entry.listEndpoints route.entries

end Route

end VirtualHosts
