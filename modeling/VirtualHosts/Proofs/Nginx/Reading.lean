/-
Rendered configurations are read back.

A reader that keeps the open blocks on a stack and takes line after line finds the directives and
blocks of the tree again.  What it cannot find are the depths, and whether a block was added as a
clause or as a location: this is the shape of a tree, and trees with one text share it.
-/

import VirtualHosts.Nginx.Script
import VirtualHosts.Proofs.Nginx.Lines

namespace VirtualHosts.Nginx

/-! ### Shapes -/

/-- What a tree says: directives as they are written, and blocks with what they hold. -/
inductive Shape where
  | directive (text : String)
  | block (name : String) (body : List Shape)

mutual

def Entry.shape : Entry → Shape
  | .directive name value => .directive (name ++ " " ++ value)
  | .clause name _ entries => .block name (Entry.listShapes entries)
  | .location path _ entries => .block (locationName path) (Entry.listShapes entries)

def Entry.listShapes : List Entry → List Shape
  | [] => []
  | entry :: rest => entry.shape :: Entry.listShapes rest

end

/-- The name is not empty and does not begin with a blank. -/
def Visible (name : String) : Prop :=
  ∃ first, name.toList.head? = some first ∧ Text.isBlank first = false

instance (name : String) : Decidable (Visible name) :=
  decidable_of_iff (name.toList.head?.any (!Text.isBlank ·) = true) (by
    simp [Visible, Option.any_eq_true])

theorem visible_locationName (path : String) : Visible (locationName path) :=
  ⟨'l', by simp [locationName], by decide⟩

/-! ### Reading lines -/

/-- The blocks that are open, the innermost first, each with its name and the entries in front
of it, and the entries read in the innermost. -/
structure Reading where
  outer : List (String × List Shape)
  current : List Shape

namespace Reading

def add (reading : Reading) (shapes : List Shape) : Reading :=
  { reading with current := reading.current ++ shapes }

def enter (reading : Reading) (name : String) : Reading :=
  ⟨(name, reading.current) :: reading.outer, []⟩

def leave (reading : Reading) : Reading :=
  match reading.outer with
  | [] => reading
  | (name, before) :: outer => ⟨outer, before ++ [.block name reading.current]⟩

/-- Reads a line by its last mark.  Blanks at its beginning and empty lines say nothing. -/
def line (reading : Reading) (chars : List Char) : Reading :=
  let written := Text.trimStart chars
  match written.getLast? with
  | some ';' => reading.add [.directive (.ofList written.dropLast)]
  | some '{' => reading.enter (.ofList (written.dropLast.dropLast))
  | some '}' => reading.leave
  | _ => reading

end Reading

theorem trimStart_indented (depth : Nat) {chars : List Char} {first : Char}
    (begins : chars.head? = some first) (visible : Text.isBlank first = false) :
    Text.trimStart (indented depth chars) = chars := by
  have blank : Text.isBlank ' ' = true := by decide
  obtain ⟨rest, rfl⟩ := List.head?_eq_some_iff.mp begins
  rw [Text.trimStart, indented, List.dropWhile_append_of_pos, List.dropWhile_cons_of_neg]
  · simp [visible]
  · intro c member
    rw [List.eq_of_mem_replicate member]
    exact blank

namespace Reading

theorem line_directive (reading : Reading) (depth : Nat) {name : String} (visible : Visible name)
    (value : String) : reading.line (indented depth (directiveLine name value)) =
      reading.add [.directive (name ++ " " ++ value)] := by
  obtain ⟨first, named, visible⟩ := visible
  have written : directiveLine name value = (name ++ " " ++ value).toList ++ [';'] := by
    simp [directiveLine]
  have begins : (directiveLine name value).head? = some first := by
    simp [directiveLine, named]
  rw [line, trimStart_indented depth begins visible, written, List.getLast?_concat,
    List.dropLast_concat, String.ofList_toList]
  rfl

theorem line_opening (reading : Reading) (depth : Nat) {name : String} (visible : Visible name) :
    reading.line (indented depth (openingLine name)) = reading.enter name := by
  obtain ⟨first, named, visible⟩ := visible
  have written : openingLine name = (name.toList ++ [' ']) ++ ['{'] := by simp [openingLine]
  have begins : (openingLine name).head? = some first := by simp [openingLine, named]
  rw [line, trimStart_indented depth begins visible, written, List.getLast?_concat,
    List.dropLast_concat, List.dropLast_concat, String.ofList_toList]
  rfl

theorem line_closing (reading : Reading) (depth : Nat) :
    reading.line (indented depth ['}']) = reading.leave := by
  rw [line, trimStart_indented depth rfl (by decide)]
  rfl

theorem add_append (reading : Reading) (first others : List Shape) :
    (reading.add first).add others = reading.add (first ++ others) := by
  rw [add, add, add, List.append_assoc]

theorem add_nil (reading : Reading) : reading.add [] = reading := by
  rw [add, List.append_nil]

theorem leave_enter (reading : Reading) (name : String) (body : List Shape) :
    ((reading.enter name).add body).leave = reading.add [.block name body] := rfl

/-- A block whose body is read as some shapes is read as one block: its name waits on the stack
until the last line. -/
theorem foldl_blockLines (reading : Reading) (depth : Nat) (spaced : Bool) {name : String}
    (visible : Visible name) {body : List (List Char)} {shapes : List Shape}
    (inner : body.foldl line (reading.enter name) = (reading.enter name).add shapes) :
    (blockLines depth spaced name body).foldl line reading =
      reading.add [.block name shapes] := by
  have read : (if body = [] then [[]] else body).foldl line (reading.enter name) =
      (reading.enter name).add shapes := by
    by_cases empty : body = []
    · rw [if_pos empty]
      rw [empty] at inner
      exact inner
    · rw [if_neg empty]
      exact inner
  have skipped : (if spaced && decide (depth ≤ 1) then [[]] else []).foldl line reading =
      reading := by
    split <;> rfl
  rw [blockLines, List.append_assoc, List.foldl_append, skipped, List.cons_append,
    List.foldl_cons, line_opening reading depth visible, List.foldl_append, read,
    List.foldl_cons, List.foldl_nil, line_closing, leave_enter]

mutual

theorem foldl_lines (depth : Nat) (spaced : Bool) (reading : Reading) : (entry : Entry) →
    entry.Meets Visible (fun _ => True) →
    (entry.lines depth spaced).foldl line reading = reading.add [entry.shape]
  | .directive _ value, ⟨visible, _⟩ => line_directive reading depth visible value
  | .clause name inner entries, ⟨visible, meets⟩ =>
      foldl_blockLines reading depth spaced visible
        (foldl_listLines inner true (reading.enter name) entries meets)
  | .location path inner entries, ⟨_, meets⟩ =>
      foldl_blockLines reading depth spaced (visible_locationName path)
        (foldl_listLines inner false (reading.enter (locationName path)) entries meets)

theorem foldl_listLines (depth : Nat) (spaced : Bool) (reading : Reading) :
    (entries : List Entry) → Entry.ListMeets Visible (fun _ => True) entries →
    (Entry.listLines depth spaced entries).foldl line reading =
      reading.add (Entry.listShapes entries)
  | [], _ => (add_nil reading).symm
  | entry :: rest, ⟨first, others⟩ => by
      rw [Entry.listLines, List.foldl_append, foldl_lines depth spaced reading entry first,
        foldl_listLines depth spaced _ rest others, add_append]
      rfl

end

end Reading

def read (text : String) : List Shape :=
  ((Text.lines text.toList).foldl Reading.line ⟨[], []⟩).current

/-- A tree is read from its text as it is, but for what the text does not show. -/
theorem read_render {clause : Clause}
    (meets : Entry.ListMeets (fun name => Unbroken name ∧ Visible name) Unbroken clause.entries) :
    read clause.render = Entry.listShapes clause.entries := by
  have unbroken : Entry.ListMeets Unbroken Unbroken clause.entries :=
    Entry.ListMeets.imp (fun _ => And.left) (fun _ => id) _ meets
  have visible : Entry.ListMeets Visible (fun _ => True) clause.entries :=
    Entry.ListMeets.imp (fun _ => And.right) (fun _ _ => trivial) _ meets
  rw [read, lines_clause clause unbroken]
  by_cases empty : clause.entries = []
  · rw [if_pos empty, empty]
    rfl
  · rw [if_neg empty, Reading.foldl_listLines _ _ _ _ visible]
    rfl

/-- Trees with the same text have the same shape.  Only line breaks in the text of the entries,
and names that are empty or begin with a blank, could confuse a reader: a line is told by its last
mark, so that marks within a line do no harm. -/
theorem shape_of_render {left right : Clause}
    (leftMeets :
      Entry.ListMeets (fun name => Unbroken name ∧ Visible name) Unbroken left.entries)
    (rightMeets :
      Entry.ListMeets (fun name => Unbroken name ∧ Visible name) Unbroken right.entries)
    (same : left.render = right.render) :
    Entry.listShapes left.entries = Entry.listShapes right.entries := by
  rw [← read_render leftMeets, ← read_render rightMeets, same]

/-- A location, and a value with a blank. -/
def withLocation : Clause :=
  (Call.runAll .root [
    .directive "worker_processes" "4",
    .clause "http" [
      .clause "server" [
        .directive "add_header" "X-Served by",
        .location "/" [.directive "index" "index.html", .clause "if ($bot)" []]]]]).block

/-- The clause with the name of the location, and a name with the blank. -/
def withClause : Clause :=
  (Call.runAll .root [
    .directive "worker_processes" "4",
    .clause "http" [
      .clause "server" [
        .directive "add_header X-Served" "by",
        .clause "location /" [.directive "index" "index.html", .clause "if ($bot)" []]]]]).block

theorem shape_of_render_location :
    withLocation ≠ withClause ∧ withLocation.render = withClause.render ∧
      Entry.listShapes withLocation.entries = Entry.listShapes withClause.entries := by
  have same : withLocation.render = withClause.render := by decide +kernel
  exact ⟨by decide, same, shape_of_render (by decide +kernel) (by decide +kernel) same⟩

end VirtualHosts.Nginx
