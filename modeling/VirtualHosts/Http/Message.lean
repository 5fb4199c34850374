/-
Requests, responses, and the handlers that turn one into the other.

Header names are kept in small letters.  A header that may occur several times
is kept once for each occurrence, in order.
-/

import VirtualHosts.Http.Uri

namespace VirtualHosts.Http

def isTokenChar (c : Char) : Bool :=
  c.isAlphanum || "!#$%&'*+-.^_\x60|~".toList.contains c

def isToken (text : String) : Bool :=
  !text.isEmpty && text.toList.all isTokenChar

def isHeaderValue (text : String) : Bool :=
  text.toList.all fun c => c == '\t' || (0x20 ≤ c.toNat && c.toNat != 0x7F)

def isReadable (text : String) : Bool :=
  text.toList.all fun c => c == '\t' || (0x20 ≤ c.toNat && c.toNat < 0x7F)

structure Header where
  name : String
  value : String
  deriving DecidableEq, Repr

namespace Header

def longestName : Nat := 65535

def make? (name value : String) : Option Header :=
  if isToken name && name.utf8ByteSize ≤ longestName && isHeaderValue value then
    some ⟨Text.lower name, value⟩
  else
    none

end Header

structure Request where
  method : String
  uri : Uri
  headers : List Header
  body : String
  params : List (String × String) := []
  deriving DecidableEq, Repr

namespace Request

def make? (method uri : String) (headers : List (String × String)) (body : String) :
    Option Request := do
  guard (isToken method)
  return {
    method
    uri := ← Uri.read? uri
    headers := ← headers.mapM fun (name, value) => Header.make? name value
    body }

def values (request : Request) (name : String) : List String :=
  (request.headers.filter (·.name == name)).map Header.value

def readable? (request : Request) (name : String) : Option String :=
  (request.values name).head?.filter isReadable

def param? (request : Request) (name : String) : Option String :=
  request.params.lookup name

def withHeader (request : Request) (header : Header) : Request :=
  { request with headers := request.headers ++ [header] }

end Request

structure Response where
  status : Nat
  headers : List Header
  body : String
  deriving DecidableEq, Repr

namespace Response

/-- A status code has three digits; any other number is replaced. -/
def statusOr (replacement code : Nat) : Nat :=
  if 100 ≤ code ∧ code ≤ 999 then code else replacement

def withBody (code : Nat) (body : String) : Response :=
  ⟨statusOr 200 code, [], body⟩

def notFound : Response := withBody 404 "Not Found"

def methodNotAllowed : Response := withBody 405 "Method Not Allowed"

def internalError : Response := withBody 500 "Internal Server Error"

/-- Sends the client elsewhere.  A place that no header can hold is left out. -/
def redirect (place : String) (code : Nat) : Response :=
  ⟨statusOr 302 code, ((Header.make? "location" place).map fun header => [header]).getD [], ""⟩

/-- Adds the pairs that are valid headers and leaves out the others. -/
def withHeaders (response : Response) (pairs : List (String × String)) : Response :=
  let added := pairs.filterMap fun (name, value) => Header.make? name value
  { response with headers := response.headers ++ added }

def values (response : Response) (name : String) : List String :=
  (response.headers.filter (·.name == name)).map Header.value

end Response

inductive Flow where
  | next (request : Request)
  | respond (response : Response)
  deriving DecidableEq, Repr

/-- Runs handlers in turn, each on the request that the one before passed on,
until one answers.  When none does, nothing was found.  What a handler does
besides is an effect of `m`. -/
def runChain {m : Type → Type} [Monad m] {α : Type} (run : α → Request → m Flow) :
    List α → Request → m Response
  | [], _ => pure .notFound
  | handler :: rest, request => do
      match ← run handler request with
      | .next request => runChain run rest request
      | .respond response => return response

end VirtualHosts.Http
