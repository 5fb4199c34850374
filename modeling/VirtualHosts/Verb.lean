/-
The verbs an endpoint answers to, and sets of them.

`static` is no request method: an endpoint with that verb alone is a directory
that the web server hands out by itself.
-/

import VirtualHosts.Text

namespace VirtualHosts

/-- A verb of an endpoint: the seven request methods, and the mark of a
directory served as it is. -/
inductive Verb where
  | get
  | head
  | put
  | patch
  | post
  | delete
  | options
  | static
  deriving DecidableEq, Repr

namespace Verb

def methods : List Verb :=
  [get, head, put, patch, post, delete, options]

def all : List Verb :=
  methods ++ [static]

def name : Verb → String
  | get => "get"
  | head => "head"
  | put => "put"
  | patch => "patch"
  | post => "post"
  | delete => "delete"
  | options => "options"
  | static => "static"

def method? : Verb → Option String
  | get => some "GET"
  | head => some "HEAD"
  | put => some "PUT"
  | patch => some "PATCH"
  | post => some "POST"
  | delete => some "DELETE"
  | options => some "OPTIONS"
  | static => none

/-- The verb of a request method; methods are compared with their case. -/
def ofMethod? (method : String) : Option Verb :=
  methods.find? (·.method? == some method)

/-- The verb with a name, whatever the case of its ASCII letters. -/
def ofName? (text : String) : Option Verb :=
  all.find? (·.name == Text.lower text)

theorem mem_all (verb : Verb) : verb ∈ all := by
  cases verb <;> decide

end Verb

structure VerbSet where
  contains : Verb → Bool

namespace VerbSet

def toList (verbs : VerbSet) : List Verb :=
  Verb.all.filter verbs.contains

theorem mem_toList {verbs : VerbSet} {verb : Verb} :
    verb ∈ verbs.toList ↔ verbs.contains verb = true := by
  simp [toList, Verb.mem_all]

@[ext]
theorem ext {left right : VerbSet}
    (same : ∀ verb, left.contains verb = right.contains verb) : left = right := by
  cases left
  cases right
  congr
  exact funext same

theorem toList_injective {left right : VerbSet}
    (same : left.toList = right.toList) : left = right := by
  ext verb
  rw [Bool.eq_iff_iff, ← mem_toList, ← mem_toList, same]

instance : DecidableEq VerbSet := fun left right =>
  decidable_of_iff (left.toList = right.toList)
    ⟨toList_injective, fun same => by rw [same]⟩

def empty : VerbSet :=
  ⟨fun _ => false⟩

def single (verb : Verb) : VerbSet :=
  ⟨fun other => other == verb⟩

def every : VerbSet :=
  ⟨fun verb => verb ∈ Verb.methods⟩

def insert (verbs : VerbSet) (verb : Verb) : VerbSet :=
  ⟨fun other => other == verb || verbs.contains other⟩

def union (left right : VerbSet) : VerbSet :=
  ⟨fun verb => left.contains verb || right.contains verb⟩

def ofList (verbs : List Verb) : VerbSet :=
  verbs.foldl insert empty

def size (verbs : VerbSet) : Nat :=
  verbs.toList.length

def isEmpty (verbs : VerbSet) : Bool :=
  verbs.toList.isEmpty

def isStatic (verbs : VerbSet) : Bool :=
  verbs.toList == [Verb.static]

/-- Whether the set has the mark of a directory beside request methods. -/
def isMixed (verbs : VerbSet) : Bool :=
  verbs.contains .static && decide (1 < verbs.size)

def allows (verbs : VerbSet) (method : String) : Bool :=
  (Verb.ofMethod? method).any verbs.contains

def display (verbs : VerbSet) : String :=
  " ".intercalate (verbs.toList.map Verb.name)

end VerbSet

end VirtualHosts
