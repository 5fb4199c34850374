/-
Tables under construction.

A table may come about by its own header, as the parent of another, or by a
key with dots.  What is allowed afterwards depends on it: a table that was
written once stays closed, one that is only implied may still get its header,
and one made by dots takes further keys with dots only.
-/

import VirtualHosts.Document

namespace VirtualHosts.Toml

inductive Node where
  | value (value : Value)
  | table (implied dotted : Bool) (fields : List (String × Node))
  /-- Tables in a row, each with a header of its own. -/
  | tables (items : List (List (String × Node)))

structure Section where
  /-- No header has named the table so far. -/
  implied : Bool
  /-- The table came about by a key with dots. -/
  dotted : Bool
  fields : List (String × Node)

namespace Section

def empty : Section := ⟨false, false, []⟩

def toNode (made : Section) : Node :=
  .table made.implied made.dotted made.fields

def set (made : Section) (key : String) (node : Node) : Section :=
  if made.fields.any (·.1 == key) then
    { made with
      fields := made.fields.map fun field => if field.1 = key then (key, node) else field }
  else
    { made with fields := made.fields ++ [(key, node)] }

/-- Changes the table at the end of a path and makes the tables on the way.  Of
tables in a row the last is meant.  A path with dots does not enter a table that
has a header. -/
def change (dotted : Bool) (apply : Section → Option Section) :
    List String → Section → Option Section
  | [], made => apply made
  | key :: path, made =>
      match made.fields.lookup key with
      | none => do
          let child ← change dotted apply path ⟨true, dotted, []⟩
          return made.set key child.toNode
      | some (.value _) => none
      | some (.table implied byDots fields) =>
          if dotted && !implied then none
          else do
            let child ← change dotted apply path ⟨implied, byDots, fields⟩
            return made.set key child.toNode
      | some (.tables items) =>
          match items.reverse with
          | [] => none
          | last :: before => do
              let child ← change dotted apply path ⟨false, false, last⟩
              return made.set key (.tables (child.fields :: before).reverse)

def insert (made : Section) (path : List String) (key : String) (value : Value) :
    Option Section :=
  change true
    (fun target =>
      if target.dotted == path.isEmpty || target.fields.any (·.1 == key) then none
      else some (target.set key (.value value)))
    path made

mutual

def nodeValue : Node → Value
  | .value value => value
  | .table _ _ fields => .table (fieldValues fields)
  | .tables items => .array (tableValues items)

def fieldValues : List (String × Node) → List (String × Value)
  | [] => []
  | (key, node) :: rest => (key, nodeValue node) :: fieldValues rest

def tableValues : List (List (String × Node)) → List Value
  | [] => []
  | fields :: rest => .table (fieldValues fields) :: tableValues rest

end

def toValue (made : Section) : Value :=
  .table (fieldValues made.fields)

end Section

end VirtualHosts.Toml
