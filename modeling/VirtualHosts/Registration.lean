/-
Registrations: what the process is told about an endpoint that it answers.
-/

import VirtualHosts.Error
import VirtualHosts.Verb

namespace VirtualHosts

structure Registration (α : Type) where
  hostname : String
  port : UInt16
  pathname : String
  verbs : VerbSet
  /-- The middleware in front of the endpoint, then its own handler. -/
  chain : List α
  deriving DecidableEq

/-- What takes registrations.  `check` says whether they can be served together. -/
structure Backend (α : Type) where
  check : List (Registration α) → Except BackendError Unit

def portHeader : String := "x-forwarded-port"

end VirtualHosts
