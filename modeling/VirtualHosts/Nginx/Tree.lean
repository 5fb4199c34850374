/-
Configuration trees: clauses and locations that hold directives, clauses and
locations, in the order in which they are added.

Every block knows its depth: the root has depth zero, and a block stands one
level below the block it was added to.
-/

namespace VirtualHosts.Nginx

inductive Entry where
  | directive (name value : String)
  | clause (name : String) (depth : Nat) (entries : List Entry)
  | location (path : String) (depth : Nat) (entries : List Entry)
  deriving Repr

mutual

def Entry.decEq : (left right : Entry) → Decidable (left = right)
  | .directive name value, .directive name' value' =>
      decidable_of_iff (name = name' ∧ value = value') (by simp)
  | .clause name depth entries, .clause name' depth' entries' =>
      match Entry.decEqList entries entries' with
      | isTrue same =>
          decidable_of_iff (name = name' ∧ depth = depth') (by simp [same])
      | isFalse differ => isFalse (by simp [differ])
  | .location path depth entries, .location path' depth' entries' =>
      match Entry.decEqList entries entries' with
      | isTrue same =>
          decidable_of_iff (path = path' ∧ depth = depth') (by simp [same])
      | isFalse differ => isFalse (by simp [differ])
  | .directive .., .clause .. | .directive .., .location .. | .clause .., .directive ..
  | .clause .., .location .. | .location .., .directive .. | .location .., .clause .. =>
      isFalse (by simp)

def Entry.decEqList : (left right : List Entry) → Decidable (left = right)
  | [], [] => isTrue rfl
  | [], _ :: _ | _ :: _, [] => isFalse (by simp)
  | left :: lefts, right :: rights =>
      match Entry.decEq left right, Entry.decEqList lefts rights with
      | isTrue same, isTrue sames => isTrue (by rw [same, sames])
      | isFalse differ, _ => isFalse (by simp [differ])
      | _, isFalse differ => isFalse (by simp [differ])

end

instance : DecidableEq Entry := Entry.decEq

structure Clause where
  name : String
  depth : Nat
  entries : List Entry := []
  deriving DecidableEq, Repr

/-- A block for a path.  It holds directives and clauses, but no locations of
its own. -/
structure Location where
  path : String
  depth : Nat
  entries : List Entry := []
  deriving DecidableEq, Repr

def locationName (path : String) : String :=
  "location " ++ path

namespace Location

def name (location : Location) : String :=
  locationName location.path

def toEntry (location : Location) : Entry :=
  .location location.path location.depth location.entries

def directive (location : Location) (name value : String) : Location :=
  { location with entries := location.entries ++ [.directive name value] }

end Location

namespace Clause

def root : Clause := ⟨"root", 0, []⟩

def toEntry (clause : Clause) : Entry :=
  .clause clause.name clause.depth clause.entries

def add (clause : Clause) (entry : Entry) : Clause :=
  { clause with entries := clause.entries ++ [entry] }

def directive (clause : Clause) (name value : String) : Clause :=
  clause.add (.directive name value)

/-- Adds a clause after `build` has filled it. -/
def clause (parent : Clause) (name : String) (build : Clause → Clause) : Clause :=
  parent.add (build ⟨name, parent.depth + 1, []⟩).toEntry

def location (parent : Clause) (path : String) (build : Location → Location) : Clause :=
  parent.add (build ⟨path, parent.depth + 1, []⟩).toEntry

/-- Adds a clause, unless `build` fails. -/
def tryClause {ε : Type} (parent : Clause) (name : String)
    (build : Clause → Except ε Clause) : Except ε Clause :=
  (build ⟨name, parent.depth + 1, []⟩).map fun child => parent.add child.toEntry

def tryLocation {ε : Type} (parent : Clause) (path : String)
    (build : Location → Except ε Location) : Except ε Clause :=
  (build ⟨path, parent.depth + 1, []⟩).map fun child => parent.add child.toEntry

end Clause

namespace Location

def clause (parent : Location) (name : String) (build : Clause → Clause) : Location :=
  { parent with
    entries := parent.entries ++ [(build ⟨name, parent.depth + 1, []⟩).toEntry] }

def tryClause {ε : Type} (parent : Location) (name : String)
    (build : Clause → Except ε Clause) : Except ε Location :=
  (build ⟨name, parent.depth + 1, []⟩).map fun child =>
    { parent with entries := parent.entries ++ [child.toEntry] }

end Location

/-! ### Lookups -/

def directiveValues (name : String) (entries : List Entry) : List String :=
  entries.filterMap fun entry =>
    match entry with
    | .directive other value => if other = name then some value else none
    | _ => none

namespace Clause

def clauses (parent : Clause) (name : String) : List Clause :=
  parent.entries.filterMap fun entry =>
    match entry with
    | .clause other depth entries => if other = name then some ⟨other, depth, entries⟩ else none
    | _ => none

def locations (parent : Clause) : List Location :=
  parent.entries.filterMap fun entry =>
    match entry with
    | .location path depth entries => some ⟨path, depth, entries⟩
    | _ => none

end Clause

end VirtualHosts.Nginx
