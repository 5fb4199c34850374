/-
The layout of a rendered tree.

Read in preorder, a tree is a row of directives, openings and closings of blocks.  Each of them
is one line, indented by its level of nesting.  The only other lines are empty: one in front of
a block that is set off, and one as the body of a block without entries.
-/

import VirtualHosts.Proofs.Nginx.Lines
import VirtualHosts.Proofs.Nginx.Nesting

namespace VirtualHosts.Nginx

/-- What is met on the way through a tree, each with the number of blocks around it.  Of a block
that opens it is told whether it stands directly in the body of a location, of one that closes
whether it was left empty. -/
inductive Piece where
  | directive (level : Nat) (name value : String)
  | opening (level : Nat) (inLocation : Bool) (name : String)
  | closing (level : Nat) (hollow : Bool)
  deriving DecidableEq, Repr

namespace Piece

def line : Piece → List Char
  | directive level name value => indented level (directiveLine name value)
  | opening level _ name => indented level (openingLine name)
  | closing level _ => indented level ['}']

/-- The number of empty lines directly in front of the line of a piece. -/
def emptyBefore : Piece → Nat
  | directive _ _ _ => 0
  | opening level inLocation _ => if level ≤ 1 ∧ inLocation = false then 1 else 0
  | closing _ hollow => if hollow then 1 else 0

def lines (piece : Piece) : List (List Char) :=
  List.replicate piece.emptyBefore [] ++ [piece.line]

theorem line_ne_nil (piece : Piece) : piece.line ≠ [] := by
  cases piece <;> simp [line, indented, directiveLine, openingLine]

theorem filter_lines (piece : Piece) : piece.lines.filter (!·.isEmpty) = [piece.line] := by
  have written : (!piece.line.isEmpty) = true := by
    simpa using piece.line_ne_nil
  rw [lines, List.filter_append, List.filter_replicate, List.filter_singleton, written]
  rfl

end Piece

def blockPieces (level : Nat) (inLocation : Bool) (name : String) (body : List Piece) :
    List Piece :=
  .opening level inLocation name :: body ++ [.closing level body.isEmpty]

mutual

def Entry.pieces (level : Nat) (inLocation : Bool) : Entry → List Piece
  | .directive name value => [.directive level name value]
  | .clause name _ entries =>
      blockPieces level inLocation name (Entry.listPieces (level + 1) false entries)
  | .location path _ entries =>
      blockPieces level inLocation (locationName path) (Entry.listPieces (level + 1) true entries)

def Entry.listPieces (level : Nat) (inLocation : Bool) : List Entry → List Piece
  | [] => []
  | entry :: rest => entry.pieces level inLocation ++ Entry.listPieces level inLocation rest

end

/-- The pieces of a tree, from the root inwards. -/
def Clause.pieces (root : Clause) : List Piece :=
  Entry.listPieces 0 false root.entries

/-! ### Lines of pieces -/

theorem flatMap_lines_eq_nil_iff {pieces : List Piece} :
    pieces.flatMap Piece.lines = [] ↔ pieces = [] := by
  cases pieces <;> simp [Piece.lines]

/-- The lines of a block are those of its opening, of its body and of its closing. -/
theorem blockLines_eq (level : Nat) (inLocation : Bool) (name : String) (body : List Piece) :
    blockLines level (!inLocation) name (body.flatMap Piece.lines) =
      (blockPieces level inLocation name body).flatMap Piece.lines := by
  have setOff : (if !inLocation && decide (level ≤ 1) then [[]] else []) =
      List.replicate (Piece.opening level inLocation name).emptyBefore ([] : List Char) := by
    by_cases near : level ≤ 1 <;> cases inLocation <;> simp [Piece.emptyBefore, near]
  have filled : (if body.flatMap Piece.lines = [] then [[]] else body.flatMap Piece.lines) =
      body.flatMap Piece.lines ++
        List.replicate (Piece.closing level body.isEmpty).emptyBefore [] := by
    cases body with
    | nil => rfl
    | cons piece rest =>
        rw [if_neg (mt flatMap_lines_eq_nil_iff.mp (List.cons_ne_nil _ _))]
        simp [Piece.emptyBefore]
  rw [blockLines, setOff, filled]
  simp [blockPieces, Piece.lines, Piece.line]

mutual

/-- With all blocks at the depths of their places, the stored depths are the levels of nesting. -/
theorem lines_pieces (level : Nat) (inLocation : Bool) : (entry : Entry) → entry.Nested level →
    entry.lines level (!inLocation) = (entry.pieces level inLocation).flatMap Piece.lines
  | .directive name value, _ => rfl
  | .clause name inner entries, ⟨depth, nested⟩ => by
      subst depth
      rw [Entry.lines, Entry.pieces, ← blockLines_eq,
        ← listLines_pieces (level + 1) false entries nested, Bool.not_false]
  | .location path inner entries, ⟨depth, nested⟩ => by
      subst depth
      rw [Entry.lines, Entry.pieces, ← blockLines_eq,
        ← listLines_pieces (level + 1) true entries nested, Bool.not_true]

theorem listLines_pieces (level : Nat) (inLocation : Bool) : (entries : List Entry) →
    Entry.ListNested level entries →
    Entry.listLines level (!inLocation) entries =
      (Entry.listPieces level inLocation entries).flatMap Piece.lines
  | [], _ => rfl
  | entry :: rest, ⟨first, others⟩ => by
      rw [Entry.listLines, Entry.listPieces, List.flatMap_append,
        lines_pieces level inLocation entry first, listLines_pieces level inLocation rest others]

end

theorem filter_flatMap_lines (pieces : List Piece) :
    (pieces.flatMap Piece.lines).filter (!·.isEmpty) = pieces.map Piece.line := by
  rw [List.filter_flatMap]
  simp only [Piece.filter_lines]
  exact List.flatMap_pure_eq_map Piece.line pieces

/-! ### The layout -/

/-- A tree that calls have built is rendered piece by piece.  Without its empty lines the text is
the row of its pieces, a line for each; the empty lines are those in front of the pieces, and the
only line of a root without entries. -/
theorem lines_of_built (calls : List Call)
    (unbroken : Entry.ListMeets Unbroken Unbroken (Call.runAll .root calls).block.entries) :
    let root := (Call.runAll .root calls).block
    let lines := Text.lines root.render.toList
    lines.filter (!·.isEmpty) = root.pieces.map Piece.line ∧
      lines = root.pieces.flatMap Piece.lines ++ if root.entries = [] then [[]] else [] := by
  intro root lines
  have grown := Call.runAll_grown calls .root trivial
  have nested : Entry.ListNested 0 root.entries := by
    have nested := grown.nested
    rwa [Clause.Nested, grown.depth] at nested
  have laidOut : lines = root.pieces.flatMap Piece.lines ++
      if root.entries = [] then [[]] else [] := by
    have depth : root.depth = 0 := grown.depth
    have split : lines = _ := lines_clause root unbroken
    rw [split, depth, Clause.pieces, ← listLines_pieces 0 false root.entries nested]
    by_cases empty : root.entries = []
    · rw [if_pos empty, if_pos empty, empty]
      rfl
    · rw [if_neg empty, if_neg empty, List.append_nil]
      rfl
  refine ⟨?_, laidOut⟩
  rw [laidOut, List.filter_append, filter_flatMap_lines]
  split <;> simp

/-- Blocks that are set off and blocks that are not, one that stays empty, and one that is tried
in vain. -/
def crowded : List Call :=
  [.directive "user" "www data",
    .clause "http" [
      .clause "server" [
        .location "/" [.clause "if ($bot)" [.directive "return" "403"]],
        .tryLocation "/lost" [.directive "index" "none", .fail "lost"],
        .clause "types" []],
      .location "/late" [.clause "limit_except GET" []]]]

theorem lines_of_built_crowded :
    Entry.ListMeets Unbroken Unbroken (Call.runAll .root crowded).block.entries ∧
      (Call.runAll .root crowded).block.pieces = [
        .directive 0 "user" "www data",
        .opening 0 false "http",
        .opening 1 false "server",
        .opening 2 false "location /",
        .opening 3 true "if ($bot)",
        .directive 4 "return" "403",
        .closing 3 false,
        .closing 2 false,
        .opening 2 false "types",
        .closing 2 true,
        .closing 1 false,
        .opening 1 false "location /late",
        .opening 2 true "limit_except GET",
        .closing 2 true,
        .closing 1 false,
        .closing 0 false] ∧
      Text.lines (Call.runAll .root crowded).block.render.toList =
        (Call.runAll .root crowded).block.pieces.flatMap Piece.lines := by
  have unbroken : Entry.ListMeets Unbroken Unbroken
      (Call.runAll .root crowded).block.entries := by decide +kernel
  have laidOut := (lines_of_built crowded unbroken).2
  have some : (Call.runAll .root crowded).block.entries ≠ [] := by decide +kernel
  rw [if_neg some, List.append_nil] at laidOut
  exact ⟨unbroken, by decide +kernel, laidOut⟩

end VirtualHosts.Nginx
