/-
Depths in a configuration tree.

Every block stands one level below the block that holds it.  Each call keeps this of the tree it
is made on, whatever the bodies of blocks do and wherever they fail, and so does every script.
-/

import VirtualHosts.Nginx.Script
import VirtualHosts.Proofs.Sequence

namespace VirtualHosts.Nginx

mutual

/-- Whether the blocks of an entry have the depths of their places, for an entry that is held by
a block of some depth. -/
def Entry.Nested (depth : Nat) : Entry → Prop
  | .directive _ _ => True
  | .clause _ inner entries | .location _ inner entries =>
      inner = depth + 1 ∧ Entry.ListNested inner entries

def Entry.ListNested (depth : Nat) : List Entry → Prop
  | [] => True
  | entry :: rest => entry.Nested depth ∧ Entry.ListNested depth rest

end

theorem Entry.listNested_concat {depth : Nat} {entries : List Entry} {entry : Entry}
    (nested : Entry.ListNested depth entries) (added : entry.Nested depth) :
    Entry.ListNested depth (entries ++ [entry]) := by
  induction entries with
  | nil => exact ⟨added, trivial⟩
  | cons first rest ih => exact ⟨nested.1, ih nested.2⟩

namespace Clause

def Nested (clause : Clause) : Prop :=
  Entry.ListNested clause.depth clause.entries

theorem Nested.add {clause : Clause} {entry : Entry} (nested : clause.Nested)
    (added : entry.Nested clause.depth) : (clause.add entry).Nested :=
  Entry.listNested_concat nested added

/-- A block after some calls: at its depth, with all blocks in it at theirs. -/
structure Grown (before after : Clause) : Prop where
  depth : after.depth = before.depth
  nested : after.Nested

theorem Grown.clause {name : String} {parent body : Clause}
    (grown : Grown ⟨name, parent.depth + 1, []⟩ body) (nested : parent.Nested) :
    Grown parent (parent.add body.toEntry) :=
  ⟨rfl, nested.add ⟨grown.depth, grown.nested⟩⟩

theorem Grown.location {name : String} {parent body : Clause} (path : String)
    (grown : Grown ⟨name, parent.depth + 1, []⟩ body) (nested : parent.Nested) :
    Grown parent (parent.add (.location path (parent.depth + 1) body.entries)) := by
  obtain ⟨depth, inner⟩ := grown
  refine ⟨rfl, nested.add ⟨rfl, ?_⟩⟩
  rwa [Nested, depth] at inner

end Clause

open Clause

theorem Made.eq_block_of_result {made : Made} {block : Clause} (ended : made.result = .ok block) :
    block = made.block := by
  unfold Made.result at ended
  split at ended
  · exact (Except.ok.inj ended).symm
  · cases ended

/-- Something that was tried leaves the block as it was, or adds one entry to it. -/
theorem Made.ofAttempt_grown {block : Clause} (nested : block.Nested) (notes : List Note)
    {attempt : Except String Clause} (added : ∀ after, attempt = .ok after → Grown block after) :
    Grown block (Made.ofAttempt block notes attempt).block := by
  cases attempt with
  | error message => exact ⟨rfl, nested⟩
  | ok after => exact added after rfl

mutual

theorem Call.run_grown : (call : Call) → (block : Clause) → block.Nested →
    Grown block (call.run block).block
  | .directive name value, _, nested => ⟨rfl, nested.add trivial⟩
  | .clause name body, block, nested =>
      (Call.runAll_grown body ⟨name, block.depth + 1, []⟩ trivial).clause nested
  | .location path body, block, nested =>
      (Call.runAll_grown body ⟨locationName path, block.depth + 1, []⟩ trivial).location path nested
  | .tryClause name body, block, nested => by
      have inner := Call.runAll_grown body ⟨name, block.depth + 1, []⟩ trivial
      refine Made.ofAttempt_grown nested _ fun after linked => ?_
      obtain ⟨child, ended, rfl⟩ := map_eq_ok_iff.mp linked
      rw [Made.eq_block_of_result ended]
      exact inner.clause nested
  | .tryLocation path body, block, nested => by
      have inner := Call.runAll_grown body ⟨locationName path, block.depth + 1, []⟩ trivial
      refine Made.ofAttempt_grown nested _ fun after linked => ?_
      obtain ⟨child, filled, rfl⟩ := map_eq_ok_iff.mp linked
      obtain ⟨made, ended, rfl⟩ := map_eq_ok_iff.mp filled
      rw [Made.eq_block_of_result ended]
      exact inner.location path nested
  | .fail message, _, nested => ⟨rfl, nested⟩

theorem Call.runAll_grown : (calls : List Call) → (block : Clause) → block.Nested →
    Grown block (Call.runAll block calls).block
  | [], _, nested => ⟨rfl, nested⟩
  | call :: rest, block, nested => by
      have first := Call.run_grown call block nested
      rw [Call.runAll]
      dsimp only
      cases (call.run block).failure with
      | some message => exact first
      | none =>
          have others := Call.runAll_grown rest (call.run block).block first.nested
          exact ⟨others.depth.trans first.depth, others.nested⟩

end

end VirtualHosts.Nginx
