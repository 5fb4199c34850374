/-
The text of a configuration tree, line by line.

Names and values without line breaks stand on one line each.  A block is a line that opens it,
the lines of its body and a line that closes it, with an empty line in front where blocks are set
off; a body without entries is one empty line.
-/

import VirtualHosts.Nginx.Rendering
import VirtualHosts.Proofs.Text

namespace VirtualHosts.Nginx

/-! ### Conditions on the texts of a tree -/

mutual

/-- The names of directives and clauses meet one condition; values of directives and paths of
locations meet another one. -/
def Entry.Meets (name text : String → Prop) : Entry → Prop
  | .directive own value => name own ∧ text value
  | .clause own _ entries => name own ∧ Entry.ListMeets name text entries
  | .location path _ entries => text path ∧ Entry.ListMeets name text entries

def Entry.ListMeets (name text : String → Prop) : List Entry → Prop
  | [] => True
  | entry :: rest => entry.Meets name text ∧ Entry.ListMeets name text rest

end

mutual

theorem Entry.Meets.imp {name text weakName weakText : String → Prop}
    (onName : ∀ own, name own → weakName own) (onText : ∀ own, text own → weakText own) :
    (entry : Entry) → entry.Meets name text → entry.Meets weakName weakText
  | .directive own value, ⟨named, valued⟩ => ⟨onName own named, onText value valued⟩
  | .clause own _ entries, ⟨named, inner⟩ =>
      ⟨onName own named, Entry.ListMeets.imp onName onText entries inner⟩
  | .location path _ entries, ⟨placed, inner⟩ =>
      ⟨onText path placed, Entry.ListMeets.imp onName onText entries inner⟩

theorem Entry.ListMeets.imp {name text weakName weakText : String → Prop}
    (onName : ∀ own, name own → weakName own) (onText : ∀ own, text own → weakText own) :
    (entries : List Entry) → Entry.ListMeets name text entries →
      Entry.ListMeets weakName weakText entries
  | [], _ => trivial
  | entry :: rest, ⟨first, others⟩ =>
      ⟨Entry.Meets.imp onName onText entry first, Entry.ListMeets.imp onName onText rest others⟩

end

section Decidability

variable {name text : String → Prop} [DecidablePred name] [DecidablePred text]

mutual

def Entry.decidableMeets : (entry : Entry) → Decidable (entry.Meets name text)
  | .directive own value => inferInstanceAs (Decidable (name own ∧ text value))
  | .clause own _ entries =>
      let _ := Entry.decidableListMeets entries
      inferInstanceAs (Decidable (name own ∧ Entry.ListMeets name text entries))
  | .location path _ entries =>
      let _ := Entry.decidableListMeets entries
      inferInstanceAs (Decidable (text path ∧ Entry.ListMeets name text entries))

def Entry.decidableListMeets :
    (entries : List Entry) → Decidable (Entry.ListMeets name text entries)
  | [] => inferInstanceAs (Decidable True)
  | entry :: rest =>
      let _ := Entry.decidableMeets entry
      let _ := Entry.decidableListMeets rest
      inferInstanceAs (Decidable (entry.Meets name text ∧ Entry.ListMeets name text rest))

end

instance (entries : List Entry) : Decidable (Entry.ListMeets name text entries) :=
  Entry.decidableListMeets entries

end Decidability

def Unbroken (text : String) : Prop :=
  '\n' ∉ text.toList

instance (text : String) : Decidable (Unbroken text) :=
  inferInstanceAs (Decidable ('\n' ∉ text.toList))

/-! ### Lines of a tree -/

def indented (depth : Nat) (chars : List Char) : List Char :=
  List.replicate (2 * depth) ' ' ++ chars

def directiveLine (name value : String) : List Char :=
  name.toList ++ ' ' :: value.toList ++ [';']

def openingLine (name : String) : List Char :=
  name.toList ++ [' ', '{']

/-- The lines of a block with a body.  A body without entries is an empty line. -/
def blockLines (depth : Nat) (spaced : Bool) (name : String) (body : List (List Char)) :
    List (List Char) :=
  (if spaced && decide (depth ≤ 1) then [[]] else []) ++
    indented depth (openingLine name) :: (if body = [] then [[]] else body) ++
      [indented depth ['}']]

mutual

def Entry.lines (depth : Nat) (spaced : Bool) : Entry → List (List Char)
  | .directive name value => [indented depth (directiveLine name value)]
  | .clause name inner entries =>
      blockLines depth spaced name (Entry.listLines inner true entries)
  | .location path inner entries =>
      blockLines depth spaced (locationName path) (Entry.listLines inner false entries)

def Entry.listLines (depth : Nat) (spaced : Bool) : List Entry → List (List Char)
  | [] => []
  | entry :: rest => entry.lines depth spaced ++ Entry.listLines depth spaced rest

end

/-! ### Lines of texts put together -/

theorem lines_join (parts : List (List Char)) :
    Text.lines (Text.join ['\n'] parts) =
      if parts = [] then [[]] else parts.flatMap Text.lines := by
  induction parts with
  | nil => rfl
  | cons first rest ih =>
      cases rest with
      | nil => simp [Text.join_singleton]
      | cons second others =>
          rw [Text.join_cons_cons, List.append_assoc, List.singleton_append,
            Text.lines_append_break, ih]
          simp

theorem toList_indent (depth : Nat) : (indent depth).toList = List.replicate (2 * depth) ' ' := by
  have pushed (count : Nat) (text : String) :
      (text.pushn ' ' count).toList = text.toList ++ List.replicate count ' ' := by
    rw [String.pushn_eq_repeat_push]
    induction count with
    | zero => simp [Nat.repeat]
    | succ count ih =>
        rw [Nat.repeat, String.toList_push, ih, List.append_assoc, List.replicate_succ']
  exact pushed (2 * depth) ""

theorem indented_unbroken (depth : Nat) {chars : List Char} (unbroken : '\n' ∉ chars) :
    '\n' ∉ indented depth chars := by
  rw [indented, List.mem_append, List.mem_replicate]
  rintro (⟨_, same⟩ | member)
  · cases same
  · exact unbroken member

/-! ### The lines of a rendering -/

theorem lines_directiveText (depth : Nat) {name value : String} (named : Unbroken name)
    (valued : Unbroken value) :
    Text.lines (indent depth ++ directiveText name value).toList =
      [indented depth (directiveLine name value)] := by
  have whole : (indent depth ++ directiveText name value).toList =
      indented depth (directiveLine name value) := by
    simp [directiveText, indented, directiveLine, toList_indent]
  rw [whole, Text.lines_of_unbroken]
  apply indented_unbroken
  unfold Unbroken at named valued
  simp [directiveLine, named, valued]

theorem lines_blockText (depth : Nat) (spaced : Bool) {name : String} (named : Unbroken name)
    (parts : List String) :
    Text.lines (blockText depth spaced name ("\n".intercalate parts)).toList =
      blockLines depth spaced name (parts.flatMap (Text.lines ·.toList)) := by
  have opening : '\n' ∉ indented depth (openingLine name) := by
    apply indented_unbroken
    unfold Unbroken at named
    simp [openingLine, named]
  have closing : '\n' ∉ indented depth ['}'] := indented_unbroken depth (by decide)
  have whole : (blockText depth spaced name ("\n".intercalate parts)).toList =
      (if spaced && decide (depth ≤ 1) then ['\n'] else []) ++
        (indented depth (openingLine name) ++ '\n' ::
          (Text.join ['\n'] (parts.map String.toList) ++ '\n' :: indented depth ['}'])) := by
    unfold blockText
    by_cases set : (spaced && decide (depth ≤ 1)) = true <;>
      simp [set, indented, openingLine, toList_indent, String.toList_intercalate, Text.join]
  have body : Text.lines (Text.join ['\n'] (parts.map String.toList)) =
      if parts.flatMap (Text.lines ·.toList) = [] then [[]]
      else parts.flatMap (Text.lines ·.toList) := by
    rw [lines_join, List.flatMap_map]
    cases parts with
    | nil => rfl
    | cons first rest =>
        have some := Text.pieces_ne_nil (· == '\n') first.toList
        rw [if_neg (by simp), if_neg]
        intro nothing
        exact some (List.append_eq_nil_iff.mp nothing).1
  have inside : Text.lines (indented depth (openingLine name) ++ '\n' ::
      (Text.join ['\n'] (parts.map String.toList) ++ '\n' :: indented depth ['}'])) =
      indented depth (openingLine name) ::
        (if parts.flatMap (Text.lines ·.toList) = [] then [[]]
          else parts.flatMap (Text.lines ·.toList)) ++ [indented depth ['}']] := by
    rw [Text.lines_append_break, Text.lines_append_break, Text.lines_of_unbroken opening,
      Text.lines_of_unbroken closing, body]
    rfl
  rw [whole, blockLines]
  by_cases set : (spaced && decide (depth ≤ 1)) = true
  · rw [if_pos set, if_pos set]
    exact (Text.lines_append_break [] _).trans (congrArg ([] :: ·) inside)
  · rw [if_neg set, if_neg set]
    exact inside

mutual

theorem lines_render (depth : Nat) (spaced : Bool) : (entry : Entry) →
    entry.Meets Unbroken Unbroken →
    Text.lines (entry.render depth spaced).toList = entry.lines depth spaced
  | .directive name value, ⟨named, valued⟩ => lines_directiveText depth named valued
  | .clause name inner entries, ⟨named, meets⟩ => by
      rw [Entry.render, Entry.lines, lines_blockText depth spaced named,
        lines_renderAll inner true entries meets]
  | .location path inner entries, ⟨placed, meets⟩ => by
      have named : Unbroken (locationName path) := by
        unfold Unbroken at placed ⊢
        simp [locationName, placed]
      rw [Entry.render, Entry.lines, lines_blockText depth spaced named,
        lines_renderAll inner false entries meets]

theorem lines_renderAll (depth : Nat) (spaced : Bool) : (entries : List Entry) →
    Entry.ListMeets Unbroken Unbroken entries →
    (Entry.renderAll depth spaced entries).flatMap (Text.lines ·.toList) =
      Entry.listLines depth spaced entries
  | [], _ => rfl
  | entry :: rest, ⟨first, others⟩ => by
      rw [Entry.renderAll, Entry.listLines, List.flatMap_cons,
        lines_render depth spaced entry first, lines_renderAll depth spaced rest others]

end

/-- The lines of a whole tree: those of its entries, or an empty one if there are none. -/
theorem lines_clause (clause : Clause) (meets : Entry.ListMeets Unbroken Unbroken clause.entries) :
    Text.lines clause.render.toList =
      if clause.entries = [] then [[]]
      else Entry.listLines clause.depth true clause.entries := by
  rw [Clause.render, String.toList_intercalate]
  change Text.lines (Text.join ['\n'] _) = _
  rw [lines_join, List.flatMap_map, ← lines_renderAll clause.depth true clause.entries meets]
  cases clause.entries with
  | nil => rfl
  | cons first rest => simp [Entry.renderAll]

end VirtualHosts.Nginx
