/-
Dispatch of requests to the chains of the registered endpoints.

The host of a request is that of its `host` header.  The port is the one that
the web server passes on in a header of its own.
-/

import VirtualHosts.Dispatch.Table
import VirtualHosts.Http.Message

namespace VirtualHosts.Dispatch

/-- A port as headers write it: digits after an optional plus sign. -/
def portOf? (text : String) : Option UInt16 :=
  let chars := Text.trim text.toList
  let digits := if chars.head? = some '+' then chars.drop 1 else chars
  ((Text.natural? 10 digits).filter (· < UInt16.size)).map UInt16.ofNat

/-- The host that a request is for: the first `host` header if it can be read as
text, else the host of the target, else the empty name. -/
def hostOf (request : Http.Request) : String :=
  ((request.readable? "host").or request.uri.host?).getD ""

def forwardedPort? (request : Http.Request) : Option UInt16 :=
  (request.readable? portHeader).bind portOf?

/-- The answer to a request, with the effects of the handlers that are run. -/
def Table.serve {m : Type → Type} [Monad m] {α : Type} (table : Table α)
    (run : α → Http.Request → m Http.Flow) (request : Http.Request) : m Http.Response :=
  match table.lookup (hostOf request) (forwardedPort? request) request.method
      request.uri.path with
  | .found chain params => Http.runChain run chain { request with params }
  | .methodNotAllowed => pure .methodNotAllowed
  | .notFound => pure .notFound

/-- The answer of handlers that do nothing but answer. -/
def Table.dispatch {α : Type} (table : Table α) (run : α → Http.Request → Http.Flow)
    (request : Http.Request) : Http.Response :=
  Id.run (table.serve (fun handler request => pure (run handler request)) request)

def backend {α : Type} : Backend α :=
  ⟨fun registrations => (Table.build registrations).map fun _ => ()⟩

end VirtualHosts.Dispatch
