/-
The dispatch table: registrations by host and port, then by pattern.

Exact patterns are asked first and every beginning after them, the longest
first.  A pattern that matches but answers other methods only does not end the
search; it is remembered for the report.
-/

import VirtualHosts.Dispatch.Hostname
import VirtualHosts.Dispatch.Pattern
import VirtualHosts.Dispatch.RouteSet
import VirtualHosts.Registration

namespace VirtualHosts.Dispatch

structure Answer (α : Type) where
  verbs : VerbSet
  chain : List α
  deriving DecidableEq

def addUnder {κ β : Type} [DecidableEq κ] (key : κ) (value : β) :
    List (κ × List β) → List (κ × List β)
  | [] => [(key, [value])]
  | (known, values) :: rest =>
      if known = key then (known, values ++ [value]) :: rest
      else (known, values) :: addUnder key value rest

/-- The values of each key, both in the order of their first appearance. -/
def gather {κ β : Type} [DecidableEq κ] (pairs : List (κ × β)) : List (κ × List β) :=
  pairs.foldl (fun gathered (key, value) => addUnder key value gathered) []

abbrev Group (α : Type) := List (Answer α)

def Group.answer? {α : Type} (group : Group α) (method : String) : Option (Answer α) :=
  List.find? (·.verbs.allows method) group

structure HostTable (α : Type) where
  exact : RouteSet (Group α)
  /-- Beginnings, the longest first. -/
  below : List (String × Group α)

inductive Dispatched (α : Type) where
  | found (chain : List α) (params : List (String × String))
  | methodNotAllowed
  | notFound
  deriving DecidableEq, Repr

/-- The captures by name.  Of two with one name the last counts. -/
def paramsOf : List (String × String) → List (String × String)
  | [] => []
  | (name, value) :: rest =>
      if rest.any (·.1 == name) then paramsOf rest else (name, value) :: paramsOf rest

namespace HostTable

variable {α : Type}

def groups (registrations : List (Registration α)) : List (Pattern × Group α) :=
  gather <| registrations.flatMap fun registration =>
    (Pattern.ofPathname registration.pathname).map fun pattern =>
      (pattern, ⟨registration.verbs, registration.chain⟩)

def insertExact (hostname : String) (port : UInt16) (exact : RouteSet (Group α)) :
    Pattern × Group α → Except BackendError (RouteSet (Group α))
  | (.below _, _) => .ok exact
  | (.exact text, group) =>
      (exact.insert text group).mapError (.ofStop text hostname port)

/-- The beginnings, the longest first; those of one length keep their order. -/
def sortBelow (groups : List (Pattern × Group α)) : List (String × Group α) :=
  let beginnings := groups.filterMap fun
    | (.exact _, _) => none
    | (.below beginning, group) => some (beginning, group)
  beginnings.mergeSort fun left right =>
    decide (right.1.utf8ByteSize ≤ left.1.utf8ByteSize)

def build (hostname : String) (port : UInt16) (registrations : List (Registration α)) :
    Except BackendError (HostTable α) :=
  let groups := groups registrations
  (groups.foldlM (insertExact hostname port) []).map fun exact =>
    ⟨exact, sortBelow groups⟩

def belowOf (table : HostTable α) (path : String) : List (Group α) :=
  (table.below.filter fun (beginning, _) => Text.startsWith path beginning).map Prod.snd

def lookup (table : HostTable α) (method path : String) : Dispatched α :=
  let exact := table.exact.find? path
  let answer? := exact.bind fun (route, captured) =>
    (Group.answer? route.value method).map fun answer =>
      Dispatched.found answer.chain (paramsOf captured)
  let groups := table.belowOf path
  match answer? with
  | some found => found
  | none =>
      match groups.findSome? (Group.answer? · method) with
      | some answer => .found answer.chain []
      | none =>
          if exact.isSome ∨ groups ≠ [] then .methodNotAllowed else .notFound

end HostTable

/-- The tables by normalized hostname and port, in the order of the first
registration of each. -/
structure Table (α : Type) where
  hosts : List ((String × UInt16) × HostTable α)

namespace Table

variable {α : Type}

def byHost (registrations : List (Registration α)) :
    List ((String × UInt16) × List (Registration α)) :=
  gather <| registrations.map fun registration =>
    ((normalizeHost registration.hostname, registration.port), registration)

def buildHost (group : (String × UInt16) × List (Registration α)) :
    Except BackendError ((String × UInt16) × HostTable α) :=
  (HostTable.build group.1.1 group.1.2 group.2).map fun table => (group.1, table)

/-- Fails at the first exact pattern that cannot be told from an earlier one of
the same host and port. -/
def build (registrations : List (Registration α)) : Except BackendError (Table α) :=
  ((byHost registrations).mapM buildHost).map mk

def isEmpty (table : Table α) : Bool :=
  table.hosts.isEmpty

/-- The table for a host and a port.  Without a port it is the first of the host. -/
def hostTable? (table : Table α) (host : String) (port : Option UInt16) :
    Option (HostTable α) :=
  let hostname := normalizeHost host
  (table.hosts.find? fun ((known, declared), _) =>
    known == hostname && port.all (· == declared)).map Prod.snd

def lookup (table : Table α) (host : String) (port : Option UInt16) (method path : String) :
    Dispatched α :=
  match table.hostTable? host port with
  | none => .notFound
  | some hostTable => hostTable.lookup method path

end Table

end VirtualHosts.Dispatch
