/-
Reading TOML: a row of headers and fields, each on a line of its own.

The table whose header came last is kept apart until the next header; then it
goes to its place in the whole.
-/

import VirtualHosts.Document.Toml.Nested

namespace VirtualHosts.Toml

structure Draft where
  whole : Section := .empty
  current : Section := .empty
  /-- The path and key of the current table; before the first header it has none. -/
  place : Option (List String × String) := none
  inRow : Bool := false

namespace Draft

def settle (draft : Draft) : Option Section :=
  match draft.place with
  | none => some draft.current
  | some (path, key) =>
      Section.change false
        (fun parent =>
          match draft.inRow, parent.fields.lookup key with
          | true, none => some (parent.set key (.tables [draft.current.fields]))
          | true, some (.tables items) =>
              some (parent.set key (.tables (items ++ [draft.current.fields])))
          | false, none | false, some (.table true _ _) =>
              some (parent.set key draft.current.toNode)
          | _, _ => none)
        path draft.whole

/-- Starts the table of a header.  A table that was only implied keeps what is
below it. -/
def header (draft : Draft) (inRow : Bool) (parts : List String) : Option Draft :=
  match parts.reverse with
  | [] => none
  | key :: path => do
      let whole ← draft.settle
      let place := some (path.reverse, key)
      let parent ← parentOf path.reverse whole
      match inRow, parent.fields.lookup key with
      | true, none | true, some (.tables _) =>
          some { whole, current := .empty, place, inRow }
      | false, none => some { whole, current := .empty, place, inRow }
      | false, some (.table true false fields) =>
          some { whole, current := ⟨false, false, fields⟩, place, inRow }
      | _, _ => none
where
  parentOf : List String → Section → Option Section
    | [], made => some made
    | key :: path, made =>
        match made.fields.lookup key with
        | none => some ⟨true, false, []⟩
        | some (.value _) => none
        | some (.table implied dotted fields) => parentOf path ⟨implied, dotted, fields⟩
        | some (.tables items) =>
            match items.reverse with
            | [] => none
            | last :: _ => parentOf path ⟨false, false, last⟩

def field (draft : Draft) (parts : List String) (value : Value) : Option Draft :=
  match parts.reverse with
  | [] => none
  | key :: path => do
      return { draft with current := ← draft.current.insert path.reverse key value }

/-- Reads one line: a comment, a header, a field, or nothing. -/
def line? (draft : Draft) (chars : List Char) : Option (Draft × List Char) :=
  match chars with
  | '#' :: _ => (lineEnd? chars).map (draft, ·)
  | '[' :: '[' :: rest => do
      match ← key? rest with
      | (parts, ']' :: ']' :: rest) => return (← draft.header true parts, ← lineEnd? rest)
      | _ => none
  | '[' :: rest => do
      match ← key? rest with
      | (parts, ']' :: rest) => return (← draft.header false parts, ← lineEnd? rest)
      | _ => none
  | '\n' :: _ | '\r' :: _ => (newline? chars).map (draft, ·)
  | _ => do
      match ← key? chars with
      | (parts, '=' :: rest) =>
          let (value, rest) ← value? rest
          return (← draft.field parts value, ← lineEnd? rest)
      | _ => none

/-- Reads lines to the end.  Every line has at least one character. -/
def run? (draft : Draft) (chars : List Char) : Option Draft :=
  match chars with
  | [] => some draft
  | c :: rest =>
      if isBlank c then draft.run? rest
      else
        match draft.line? (c :: rest) with
        | some (draft, after) =>
            if after.length ≤ rest.length then draft.run? after else none
        | none => none
termination_by chars.length

end Draft

/-- The table that a text writes.  A byte order mark in front is passed over. -/
def read? (text : String) : Option Value := do
  let chars := match text.toList with
    | '\uFEFF' :: rest => rest
    | chars => chars
  let draft ← Draft.run? {} chars
  return (← draft.settle).toValue

end VirtualHosts.Toml
