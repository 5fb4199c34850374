/-
Typed reading of document values.

A reader takes a value of one form and refuses every other.  A record is read
from a table by the names of its fields, or from an array by their order; fields
that no one asks for are passed over.  Opening tables and arrays may be limited
in depth, and only what is really read counts.
-/

import VirtualHosts.Document
import VirtualHosts.Text

namespace VirtualHosts

structure Allowance where
  /-- How many more levels may be opened, if there is a limit. -/
  depth : Option Nat
  /-- Whether an array may have more items than the record has fields. -/
  surplus : Bool
  deriving DecidableEq, Repr

namespace Allowance

/-- JSON opens at most 127 levels and wants every item of a record to be read. -/
def json : Allowance := ⟨some 127, false⟩

/-- TOML limits depth while it is parsed. -/
def toml : Allowance := ⟨none, true⟩

def inside (allowance : Allowance) : Option Allowance :=
  match allowance.depth with
  | none => some allowance
  | some 0 => none
  | some (depth + 1) => some { allowance with depth := some depth }

end Allowance

abbrev Reader (β : Type) := Allowance → Value → Option β

namespace Reader

variable {β : Type}

def text : Reader String := fun _ value =>
  match value with
  | .text text => some text
  | _ => none

def flag : Reader Bool := fun _ value =>
  match value with
  | .bool flag => some flag
  | _ => none

def natural (bound : Nat) : Reader Nat := fun _ value =>
  match value with
  | .integer (.ofNat n) => if n < bound then some n else none
  | _ => none

def port : Reader UInt16 := fun allowance value =>
  (natural (Nat.pow 2 16) allowance value).map UInt16.ofNat

def word : Reader UInt32 := fun allowance value =>
  (natural (Nat.pow 2 32) allowance value).map UInt32.ofNat

def optional (reader : Reader β) : Reader (Option β) := fun allowance value =>
  match value with
  | .null => some none
  | _ => (reader allowance value).map some

def list (reader : Reader β) : Reader (List β) := fun allowance value =>
  match value with
  | .array items => do
      let inner ← allowance.inside
      items.mapM (reader inner)
  | _ => none

/-- Keeps the last of the fields that share a name. -/
def lastOfEach (fields : List (String × β)) : List (String × β) :=
  fields.foldr
    (fun field kept => if kept.any (·.1 == field.1) then kept else field :: kept) []

def fields (reader : Reader β) : Reader (List (String × β)) := fun allowance value =>
  match value with
  | .table fields => do
      let inner ← allowance.inside
      return lastOfEach (← fields.mapM fun (name, value) => do
        return (name, ← reader inner value))
  | _ => none

mutual

/-- Any value that can be read, as it is.  A number that is not finite is nothing. -/
def anything (allowance : Allowance) : Value → Option Value
  | .unreadable => none
  | .notFinite => some .null
  | .array items => do return .array (← everyItem (← allowance.inside) items)
  | .table fields => do
      return .table (lastOfEach (← everyField (← allowance.inside) fields))
  | value => some value

def everyItem (allowance : Allowance) : List Value → Option (List Value)
  | [] => some []
  | value :: rest => do
      return (← anything allowance value) :: (← everyItem allowance rest)

def everyField (allowance : Allowance) :
    List (String × Value) → Option (List (String × Value))
  | [] => some []
  | (name, value) :: rest => do
      return (name, ← anything allowance value) :: (← everyField allowance rest)

end

def options : Reader Options := fun allowance value =>
  match value with
  | .table _ =>
      match anything allowance value with
      | some (.table fields) => some fields
      | _ => none
  | _ => none

end Reader

/-! ### Records -/

def Value.named? (name : String) : List (String × Value) → Option Value
  | [] => none
  | (other, value) :: rest => if other = name then some value else named? name rest

def Value.placed? (name : String) : List String → List Value → Option Value
  | other :: names, value :: rest =>
      if other = name then some value else placed? name names rest
  | _, _ => none

structure Record where
  names : List String
  value : Value
  allowance : Allowance

namespace Record

/-- Opens a record.  A table must not repeat a field that the record has. -/
def open? (names : List String) (allowance : Allowance) (value : Value) : Option Record := do
  let inner ← allowance.inside
  match value with
  | .table fields =>
      guard (names.all fun name => (fields.filter (·.1 == name)).length ≤ 1)
      return ⟨names, value, inner⟩
  | .array items =>
      guard (allowance.surplus || items.length ≤ names.length)
      return ⟨names, value, inner⟩
  | _ => none

def field? (record : Record) (name : String) : Option Value :=
  match record.value with
  | .table fields => Value.named? name fields
  | .array items => Value.placed? name record.names items
  | _ => none

def required {β : Type} (record : Record) (name : String) (reader : Reader β) : Option β :=
  (record.field? name).bind (reader record.allowance)

def withDefault {β : Type} (record : Record) (name : String) (reader : Reader β)
    (default : β) : Option β :=
  match record.field? name with
  | none => some default
  | some value => reader record.allowance value

end Record

end VirtualHosts
