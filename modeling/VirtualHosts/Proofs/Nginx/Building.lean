/-
Trees told by the calls that build them.

Of the calls made in turn on a block, those in front of the first failure are carried out.  Each
of them adds one entry at the end, unless it tries a block whose body fails; then it leaves
nothing behind, however much the body had made.  So the entries of a block are those of the calls
that were linked, in their order, and lookups find them so.
-/

import Mathlib.Data.List.TakeWhile
import VirtualHosts.Proofs.Nginx.Nesting

namespace VirtualHosts.Nginx

/-! ### Calls -/

namespace Call

def failure? : Call → Option String
  | fail message => some message
  | directive _ _ | clause _ _ | location _ _ | tryClause _ _ | tryLocation _ _ => none

/-- The failure at which calls made in turn stop: the first. -/
def listFailure? (calls : List Call) : Option String :=
  calls.findSome? failure?

/-- The failure of the body of something that is tried. -/
def lost? : Call → Option String
  | tryClause _ body | tryLocation _ body => listFailure? body
  | directive _ _ | clause _ _ | location _ _ | fail _ => none

/-- The calls that are carried out: those in front of the first failure. -/
def performed (calls : List Call) : List Call :=
  calls.takeWhile fun call => call.failure?.isNone

/-- The calls that add an entry: those that are carried out and try nothing in vain. -/
def linked (calls : List Call) : List Call :=
  (performed calls).filter fun call => call.lost?.isNone

/-- A block that is filled by calls. -/
def filled (name : String) (depth : Nat) (body : List Call) : Clause :=
  (runAll ⟨name, depth, []⟩ body).block

/-- The clause of some name that a call adds to a block of some depth. -/
def clause? (wanted : String) (depth : Nat) : Call → Option Clause
  | clause name body | tryClause name body =>
      if name = wanted then some (filled name (depth + 1) body) else none
  | directive _ _ | location _ _ | tryLocation _ _ | fail _ => none

def location? (depth : Nat) : Call → Option Location
  | location path body | tryLocation path body =>
      some ⟨path, depth + 1, (filled (locationName path) (depth + 1) body).entries⟩
  | directive _ _ | clause _ _ | tryClause _ _ | fail _ => none

/-- The value that a call gives to the directive of some name. -/
def value? (wanted : String) : Call → Option String
  | directive name value => if name = wanted then some value else none
  | clause _ _ | location _ _ | tryClause _ _ | tryLocation _ _ | fail _ => none

/-- The entry that a call adds to a block of some depth, if it is carried out. -/
def added? (depth : Nat) : Call → Option Entry
  | directive name value => some (.directive name value)
  | clause name body => some (filled name (depth + 1) body).toEntry
  | tryClause name body => some (filled name (depth + 1) body).toEntry
  | location path body =>
      some (.location path (depth + 1) (filled (locationName path) (depth + 1) body).entries)
  | tryLocation path body =>
      some (.location path (depth + 1) (filled (locationName path) (depth + 1) body).entries)
  | fail _ => none

end Call

/-- What the calls of a location are made on. -/
def Location.body (location : Location) : Clause :=
  ⟨location.name, location.depth, location.entries⟩

namespace Call

/-- The body of a clause, as calls that may fail. -/
def fill (body : List Call) (fresh : Clause) : Except String Clause :=
  (runAll fresh body).result

def fillLocation (body : List Call) (fresh : Location) : Except String Location :=
  (runAll fresh.body body).result.map fun made => { fresh with entries := made.entries }

end Call

open Call

/-! ### One call -/

theorem Made.ofAttempt_failure (block : Clause) (notes : List Note)
    (attempt : Except String Clause) : (Made.ofAttempt block notes attempt).failure = none := by
  cases attempt <;> rfl

theorem Call.run_failure (block : Clause) (call : Call) :
    (call.run block).failure = call.failure? := by
  cases call with
  | tryClause name body => exact Made.ofAttempt_failure _ _ _
  | tryLocation path body => exact Made.ofAttempt_failure _ _ _
  | _ => rfl

theorem Call.runAll_cons (block : Clause) (call : Call) (rest : List Call) :
    runAll block (call :: rest) =
      match call.failure? with
      | some message => ⟨(call.run block).block, (call.run block).notes, some message⟩
      | none =>
          let later := runAll (call.run block).block rest
          ⟨later.block, (call.run block).notes ++ later.notes, later.failure⟩ := by
  rw [← run_failure block]
  rfl

theorem Call.runAll_failure (block : Clause) (calls : List Call) :
    (runAll block calls).failure = listFailure? calls := by
  induction calls generalizing block with
  | nil => rfl
  | cons call rest ih =>
      rw [runAll_cons, listFailure?, List.findSome?_cons]
      cases call.failure? with
      | some message => rfl
      | none => exact ih (call.run block).block

theorem Call.result_of_ended {body : List Call} (ended : listFailure? body = none)
    (block : Clause) : (runAll block body).result = .ok (runAll block body).block := by
  rw [Made.result, runAll_failure, ended]

theorem Call.result_of_failed {body : List Call} {message : String}
    (failed : listFailure? body = some message) (block : Clause) :
    (runAll block body).result = .error message := by
  rw [Made.result, runAll_failure, failed]

/-- What is tried fails with the failure of its body. -/
theorem Call.attempts_of_failed {body : List Call} {message : String}
    (failed : listFailure? body = some message) (block : Clause) (name : String) :
    block.tryClause name (fill body) = .error message ∧
      block.tryLocation name (fillLocation body) = .error message := by
  simp only [Clause.tryClause, Clause.tryLocation, fill, fillLocation, result_of_failed failed,
    Except.map, and_self]

/-- What is tried is added as any other block if its body ends. -/
theorem Call.attempts_of_ended {body : List Call} (ended : listFailure? body = none)
    (block : Clause) (name : String) :
    block.tryClause name (fill body) =
        .ok (block.add (filled name (block.depth + 1) body).toEntry) ∧
      block.tryLocation name (fillLocation body) = .ok (block.add (.location name (block.depth + 1)
        (filled (locationName name) (block.depth + 1) body).entries)) := by
  simp only [Clause.tryClause, Clause.tryLocation, fill, fillLocation, result_of_ended ended,
    Except.map]
  exact ⟨rfl, rfl⟩

theorem Call.run_tryClause (block : Clause) (name : String) (body : List Call) :
    (tryClause name body).run block =
      .ofAttempt block (runAll ⟨name, block.depth + 1, []⟩ body).notes
        (block.tryClause name (fill body)) := rfl

theorem Call.run_tryLocation (block : Clause) (path : String) (body : List Call) :
    (tryLocation path body).run block =
      .ofAttempt block (runAll ⟨locationName path, block.depth + 1, []⟩ body).notes
        (block.tryLocation path (fillLocation body)) := rfl

/-- A call that is carried out adds one entry, behind those that there are. -/
theorem Call.run_of_kept {call : Call} (performed : call.failure? = none)
    (kept : call.lost? = none) (block : Clause) :
    ∃ entry, call.added? block.depth = some entry ∧ (call.run block).block = block.add entry := by
  cases call with
  | directive name value => exact ⟨_, rfl, rfl⟩
  | clause name body => exact ⟨_, rfl, rfl⟩
  | location path body => exact ⟨_, rfl, rfl⟩
  | tryClause name body =>
      refine ⟨_, rfl, ?_⟩
      rw [run_tryClause, (attempts_of_ended kept block name).1]
      rfl
  | tryLocation path body =>
      refine ⟨_, rfl, ?_⟩
      rw [run_tryLocation, (attempts_of_ended kept block path).2]
      rfl
  | fail message => cases performed

/-- A block that is tried in vain leaves nothing but a note of the failure. -/
theorem Call.run_of_lost {call : Call} {message : String} (lost : call.lost? = some message)
    (block : Clause) : (call.run block).block = block ∧ ∃ inner,
      (call.run block).notes = inner ++ [⟨block.name, message, block.entries.length⟩] := by
  cases call with
  | tryClause name body =>
      rw [run_tryClause, (attempts_of_failed lost block name).1]
      exact ⟨rfl, _, rfl⟩
  | tryLocation path body =>
      rw [run_tryLocation, (attempts_of_failed lost block path).2]
      exact ⟨rfl, _, rfl⟩
  | _ => cases lost

theorem Call.run_of_failure {call : Call} {message : String}
    (failed : call.failure? = some message) (block : Clause) : (call.run block).block = block := by
  cases call with
  | fail message => rfl
  | _ => cases failed

/-! ### Calls in turn -/

theorem Call.linked_cons_of_failure {call : Call} {message : String}
    (failed : call.failure? = some message) (rest : List Call) : linked (call :: rest) = [] := by
  rw [linked, performed, List.takeWhile_cons_of_neg (by rw [failed]; exact nofun)]
  rfl

theorem Call.linked_cons {call : Call} (goesOn : call.failure? = none) (rest : List Call) :
    linked (call :: rest) = if call.lost? = none then call :: linked rest else linked rest := by
  rw [linked, performed, List.takeWhile_cons_of_pos (by rw [goesOn]; rfl), List.filter_cons]
  simp only [Option.isNone_iff_eq_none]
  rfl

/-- Calls made in turn add the entries of those that are linked, and change nothing else. -/
theorem Call.runAll_block (block : Clause) (calls : List Call) :
    (runAll block calls).block =
      { block with
        entries := block.entries ++ (linked calls).filterMap (added? block.depth) } := by
  induction calls generalizing block with
  | nil =>
      change block = { block with entries := block.entries ++ [] }
      rw [List.append_nil]
  | cons call rest ih =>
      rw [runAll_cons]
      cases stops : call.failure? with
      | some message =>
          rw [linked_cons_of_failure stops, List.filterMap_nil, List.append_nil]
          exact run_of_failure stops block
      | none =>
          rw [linked_cons stops]
          dsimp only
          rw [ih]
          cases lost : call.lost? with
          | some message =>
              rw [(run_of_lost lost block).1]
              rfl
          | none =>
              obtain ⟨entry, added, made⟩ := run_of_kept stops lost block
              rw [made, if_pos rfl, List.filterMap_cons_some added, List.append_cons]
              rfl

theorem Call.filled_eq (name : String) (depth : Nat) (body : List Call) :
    filled name depth body = ⟨name, depth, (linked body).filterMap (added? depth)⟩ :=
  runAll_block ⟨name, depth, []⟩ body

/-! ### Lookups -/

/-- What is looked up in a block after calls was there before, or one of the linked calls has
added it. -/
theorem Call.filterMap_runAll {β : Type} {read : Entry → Option β} {told : Call → Option β}
    {depth : Nat} (tells : ∀ call, (added? depth call).bind read = told call) (block : Clause)
    (same : block.depth = depth) (calls : List Call) :
    (runAll block calls).block.entries.filterMap read =
      block.entries.filterMap read ++ (linked calls).filterMap told := by
  rw [runAll_block, List.filterMap_append, List.filterMap_filterMap, same]
  simp only [tells]

/-- A block that calls have filled is found by the name that it was given. -/
theorem Call.read_filled (wanted name : String) (depth : Nat) (body : List Call) :
    (if (filled name depth body).name = wanted then some (filled name depth body) else none) =
      if name = wanted then some (filled name depth body) else none := by
  have named : (filled name depth body).name = name :=
    congrArg Clause.name (filled_eq name depth body)
  rw [named]

theorem Call.clauses_runAll (block : Clause) (calls : List Call) (name : String) :
    (runAll block calls).block.clauses name =
      block.clauses name ++ (linked calls).filterMap (clause? name block.depth) := by
  refine filterMap_runAll (fun call => ?_) block rfl calls
  cases call with
  | clause other body => exact read_filled name other (block.depth + 1) body
  | tryClause other body => exact read_filled name other (block.depth + 1) body
  | _ => rfl

theorem Call.locations_runAll (block : Clause) (calls : List Call) :
    (runAll block calls).block.locations =
      block.locations ++ (linked calls).filterMap (location? block.depth) := by
  refine filterMap_runAll (fun call => ?_) block rfl calls
  cases call <;> rfl

theorem Call.directiveValues_runAll (block : Clause) (calls : List Call) (name : String) :
    directiveValues name (runAll block calls).block.entries =
      directiveValues name block.entries ++ (linked calls).filterMap (value? name) := by
  refine filterMap_runAll (fun call => ?_) block rfl calls
  cases call <;> rfl

/-! ### The tree -/

theorem Call.entries_nested (depth : Nat) (calls : List Call) :
    Entry.ListNested depth ((linked calls).filterMap (added? depth)) := by
  have grown := runAll_grown calls ⟨"", depth, []⟩ trivial
  have nested := grown.nested
  rw [runAll_block] at nested
  exact nested

theorem Call.length_entries (depth : Nat) (calls : List Call) :
    ((linked calls).filterMap (added? depth)).length = (linked calls).length := by
  rw [List.length_filterMap_eq_countP, List.countP_eq_length]
  intro call member
  have carriedOut := List.mem_takeWhile_imp (List.mem_filter.mp member).1
  cases call with
  | fail message => cases carriedOut
  | _ => rfl

/-- What calls in turn make of a block: behind the entries that it had, one for each call that is
linked, at the depth of its place.  Lookups find them in the order of the calls. -/
structure Builds (block : Clause) (calls : List Call) (after : Clause) : Prop where
  name : after.name = block.name
  depth : after.depth = block.depth
  entries : ∃ added, after.entries = block.entries ++ added ∧
    added.length = (linked calls).length ∧ Entry.ListNested block.depth added
  clauses : ∀ name, after.clauses name =
    block.clauses name ++ (linked calls).filterMap (clause? name block.depth)
  locations : after.locations = block.locations ++ (linked calls).filterMap (location? block.depth)
  values : ∀ name, directiveValues name after.entries =
    directiveValues name block.entries ++ (linked calls).filterMap (value? name)

/-- What a block does with one call: it keeps its entries and gets one more, or, where a body
fails that is tried, none.  The failure is that of the body. -/
structure Receives (block : Clause) : Prop where
  kept : ∀ call : Call, call.failure? = none → call.lost? = none →
    ∃ entry, (call.run block).block.entries = block.entries ++ [entry]
  lost : ∀ (call : Call) message, call.lost? = some message → (call.run block).block = block ∧
    ∃ inner, (call.run block).notes = inner ++ [⟨block.name, message, block.entries.length⟩]
  attempts : ∀ body message, listFailure? body = some message → ∀ name,
    block.tryClause name (fill body) = .error message ∧
      block.tryLocation name (fillLocation body) = .error message

/-- What a location does with a call is what its body does. -/
structure Location.Passes (location : Location) : Prop where
  name : location.body.name = "location " ++ location.path
  directive : ∀ name value, (location.directive name value).body =
    location.body.directive name value
  clause : ∀ name build, (location.clause name build).body = location.body.clause name build
  tryClause : ∀ name (build : Clause → Except String Clause),
    (location.tryClause name build).map body = location.body.tryClause name build

theorem Location.passes (location : Location) : location.Passes where
  name := rfl
  directive := fun _ _ => rfl
  clause := fun _ _ => rfl
  tryClause := by
    intro name build
    change ((build ⟨name, location.depth + 1, []⟩).map _).map body =
      (build ⟨name, location.depth + 1, []⟩).map _
    cases build ⟨name, location.depth + 1, []⟩ <;> rfl

theorem Call.builds (block : Clause) (calls : List Call) :
    Builds block calls (runAll block calls).block where
  name := by rw [runAll_block]
  depth := by rw [runAll_block]
  entries := by
    rw [runAll_block]
    exact ⟨_, rfl, length_entries block.depth calls, entries_nested block.depth calls⟩
  clauses := clauses_runAll block calls
  locations := locations_runAll block calls
  values := directiveValues_runAll block calls

theorem Clause.receives (block : Clause) : Receives block where
  kept := by
    intro call performed kept
    obtain ⟨entry, -, made⟩ := run_of_kept performed kept block
    exact ⟨entry, congrArg Clause.entries made⟩
  lost := fun call message lost => run_of_lost lost block
  attempts := fun _ _ failed name => attempts_of_failed failed block name

/-- In a tree that calls have built, every block stands one level below the one that holds it.
On the way every block, the root and those inside it, is built call by call. -/
theorem calls_build_tree (calls : List Call) :
    (runAll .root calls).block.depth = 0 ∧
      Entry.ListNested 0 (runAll .root calls).block.entries ∧
      (∀ block, Builds block calls (runAll block calls).block ∧ Receives block) ∧
      ∀ location : Location, location.Passes := by
  have root := Call.builds .root calls
  refine ⟨root.depth, ?_, fun block => ⟨builds block calls, block.receives⟩, Location.passes⟩
  obtain ⟨added, whole, -, nested⟩ := root.entries
  rw [whole]
  exact nested

example :
    runAll .root [.directive "user" "www", .tryClause "http" [.directive "gzip" "on", .fail "no"],
        .directive "pid" "1"] =
      ⟨⟨"root", 0, [.directive "user" "www", .directive "pid" "1"]⟩, [⟨"root", "no", 1⟩], none⟩ := by
  decide

end VirtualHosts.Nginx
