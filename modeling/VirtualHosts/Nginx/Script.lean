/-
Scripts that build configuration trees.

A script lists the calls on a block, with the calls on the blocks that it adds.
Any body may fail at any point.  A clause or location added as it is keeps what
its body had made until then; one that is tried is left out with all of it, and
the failure is noted with the number of entries of the block that tried it.
-/

import VirtualHosts.Nginx.Tree

namespace VirtualHosts.Nginx

inductive Call where
  | directive (name value : String)
  | clause (name : String) (body : List Call)
  | location (path : String) (body : List Call)
  | tryClause (name : String) (body : List Call)
  | tryLocation (path : String) (body : List Call)
  | fail (message : String)

/-- A failure of something that was tried: the name of the block that tried it,
the message, and the number of entries of that block. -/
structure Note where
  block : String
  message : String
  entries : Nat
  deriving DecidableEq, Repr

structure Made where
  block : Clause
  notes : List Note
  failure : Option String
  deriving DecidableEq, Repr

def Made.result (made : Made) : Except String Clause :=
  match made.failure with
  | none => .ok made.block
  | some message => .error message

/-- A block after something was tried on it: a failure leaves it as it was and
is noted. -/
def Made.ofAttempt (block : Clause) (notes : List Note) : Except String Clause → Made
  | .ok block => ⟨block, notes, none⟩
  | .error message => ⟨block, notes ++ [⟨block.name, message, block.entries.length⟩], none⟩

mutual

def Call.run (block : Clause) : Call → Made
  | .directive name value => ⟨block.directive name value, [], none⟩
  | .clause name body =>
      let made := Call.runAll ⟨name, block.depth + 1, []⟩ body
      ⟨block.clause name fun _ => made.block, made.notes, none⟩
  | .location path body =>
      let made := Call.runAll ⟨locationName path, block.depth + 1, []⟩ body
      ⟨block.location path fun fresh => { fresh with entries := made.block.entries },
        made.notes, none⟩
  | .tryClause name body =>
      let made := Call.runAll ⟨name, block.depth + 1, []⟩ body
      .ofAttempt block made.notes (block.tryClause name fun _ => made.result)
  | .tryLocation path body =>
      let made := Call.runAll ⟨locationName path, block.depth + 1, []⟩ body
      .ofAttempt block made.notes
        (block.tryLocation path fun fresh =>
          made.result.map fun body => { fresh with entries := body.entries })
  | .fail message => ⟨block, [], some message⟩

/-- Makes calls in turn, up to the first that fails. -/
def Call.runAll (block : Clause) : List Call → Made
  | [] => ⟨block, [], none⟩
  | call :: rest =>
      let made := Call.run block call
      match made.failure with
      | some message => ⟨made.block, made.notes, some message⟩
      | none =>
          let later := Call.runAll made.block rest
          ⟨later.block, made.notes ++ later.notes, later.failure⟩

end

end VirtualHosts.Nginx
