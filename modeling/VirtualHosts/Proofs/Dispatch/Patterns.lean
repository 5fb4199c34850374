/-
The patterns of a pathname, case by case.

A segment is about a parameter if something follows its colon.  The text of an exact
pattern agrees with the pathname up to its first parameter, but for the braces, which it
has twice.
-/

import VirtualHosts.Dispatch.Pattern
import VirtualHosts.Proofs.Text

namespace VirtualHosts.Dispatch

/-! ### Texts -/

def namesParameter : List Char → Bool
  | ':' :: _ :: _ => true
  | _ => false

def patternText (chars : List Char) : List Char :=
  Text.join ['/'] ((Text.segments chars).map segmentText)

theorem namesParameter_iff (segment : List Char) :
    namesParameter segment = true ↔ ∃ first name, segment = ':' :: first :: name := by
  constructor
  · intro names
    unfold namesParameter at names
    split at names
    · exact ⟨_, _, rfl⟩
    · cases names
  · rintro ⟨first, name, rfl⟩
    rfl

theorem namesParameter_of_isMarked {segment : List Char} (unmarked : isMarked segment = false) :
    namesParameter segment = false := by
  rw [← Bool.not_eq_true, namesParameter_iff]
  rintro ⟨first, name, rfl⟩
  cases unmarked

theorem any_isMarked_iff (parts : List (List Char)) :
    parts.any isMarked = true ↔ ¬∀ part ∈ parts, isMarked part = false := by
  rw [List.any_eq_true]
  constructor
  · rintro ⟨part, member, marked⟩ unmarked
    rw [unmarked part member] at marked
    cases marked
  · intro marked
    by_contra none
    apply marked
    intro part member
    exact Bool.eq_false_iff.mpr fun own => none ⟨part, member, own⟩

theorem any_isMarked_of_names {parts : List (List Char)}
    (names : ∃ part ∈ parts, namesParameter part = true) : parts.any isMarked = true := by
  rw [List.any_eq_true]
  obtain ⟨part, member, named⟩ := names
  obtain ⟨first, name, rfl⟩ := (namesParameter_iff part).mp named
  exact ⟨_, member, rfl⟩

theorem segmentText_eq_doubleBraces {segment : List Char}
    (plain : namesParameter segment = false) : segmentText segment = doubleBraces segment := by
  unfold segmentText
  split
  · cases plain
  · rfl

theorem doubleBraces_append (left right : List Char) :
    doubleBraces (left ++ right) = doubleBraces left ++ doubleBraces right :=
  List.flatMap_append

theorem join_map_doubleBraces (parts : List (List Char)) :
    Text.join ['/'] (parts.map doubleBraces) = doubleBraces (Text.join ['/'] parts) := by
  match parts with
  | [] => rfl
  | [only] => rw [List.map_singleton, Text.join_singleton, Text.join_singleton]
  | first :: second :: rest =>
      have tail := join_map_doubleBraces (second :: rest)
      rw [List.map_cons] at tail
      rw [List.map_cons, List.map_cons, Text.join_cons_cons, tail, Text.join_cons_cons,
        doubleBraces_append, doubleBraces_append]
      rfl

theorem patternText_eq_doubleBraces {chars : List Char}
    (plain : ∀ segment ∈ Text.segments chars, namesParameter segment = false) :
    patternText chars = doubleBraces chars := by
  have texts : (Text.segments chars).map segmentText = (Text.segments chars).map doubleBraces :=
    List.map_congr_left fun segment member => segmentText_eq_doubleBraces (plain segment member)
  rw [patternText, texts, join_map_doubleBraces, Text.join_segments]

/-- The first parameter stands behind the same text in a pathname and in its pattern. -/
theorem join_of_namesParameter {parts : List (List Char)}
    (names : ∃ part ∈ parts, namesParameter part = true) :
    ∃ lead first plain text, Text.join ['/'] parts = lead ++ ':' :: first :: plain ∧
      Text.join ['/'] (parts.map segmentText) = doubleBraces lead ++ '{' :: first :: text := by
  match parts with
  | [] =>
      obtain ⟨part, impossible, _⟩ := names
      cases impossible
  | part :: others =>
      cases own : namesParameter part with
      | true =>
          obtain ⟨first, name, rfl⟩ := (namesParameter_iff part).mp own
          obtain ⟨plain, joined⟩ := Text.join_cons ['/'] (':' :: first :: name) others
          obtain ⟨text, joinedTexts⟩ := Text.join_cons ['/'] (segmentText (':' :: first :: name))
            (others.map segmentText)
          refine ⟨[], first, name ++ plain, name ++ ['}'] ++ text, joined, ?_⟩
          rw [List.map_cons, joinedTexts]
          simp [segmentText, doubleBraces]
      | false =>
          have later : ∃ part ∈ others, namesParameter part = true := by
            obtain ⟨other, member, named⟩ := names
            rcases List.mem_cons.mp member with rfl | later
            · rw [own] at named
              cases named
            · exact ⟨other, later, named⟩
          obtain ⟨lead, first, plain, text, joined, joinedTexts⟩ := join_of_namesParameter later
          match others with
          | [] =>
              obtain ⟨other, impossible, _⟩ := later
              cases impossible
          | second :: rest =>
              refine ⟨part ++ '/' :: lead, first, plain, text, ?_, ?_⟩
              · rw [Text.join_cons_cons, joined]
                simp
              · rw [List.map_cons] at joinedTexts
                rw [List.map_cons, List.map_cons, Text.join_cons_cons, joinedTexts,
                  segmentText_eq_doubleBraces own]
                simp [doubleBraces]

/-! ### Patterns -/

namespace Pattern

theorem ofPathname_root {pathname : String}
    (root : pathname.toList = [] ∨ pathname.toList = ['*'] ∨ pathname.toList = ['/']) :
    ofPathname pathname = [below "/"] := by
  unfold ofPathname
  dsimp only
  rw [if_pos root]

theorem not_root_of_star {chars beginning : List Char} (nonempty : beginning ≠ [])
    (ends : chars = beginning ++ ['*']) : ¬(chars = [] ∨ chars = ['*'] ∨ chars = ['/']) := by
  rw [ends]
  rintro (impossible | short | impossible)
  · simp at impossible
  · exact nonempty (List.append_cancel_right (short : _ = [] ++ ['*']))
  · have last := congrArg List.getLast? impossible
    simp at last

theorem ofPathname_star {pathname : String} {beginning : List Char} (nonempty : beginning ≠ [])
    (ends : pathname.toList = beginning ++ ['*']) :
    ofPathname pathname = [below (.ofList beginning)] := by
  unfold ofPathname
  dsimp only
  rw [if_neg (not_root_of_star nonempty ends),
    (Text.dropLast?_eq_some_iff '*' _ beginning).mpr ends]

/-- A pathname that is not about every path, and does not end in a star. -/
structure Proper (pathname : String) : Prop where
  nonempty : pathname.toList ≠ []
  notSlash : pathname.toList ≠ ['/']
  noStar : pathname.toList.getLast? ≠ some '*'

theorem ofPathname_proper {pathname : String} (proper : Proper pathname) :
    ofPathname pathname =
      if (Text.segments pathname.toList).any isMarked then
        [exact (.ofList (patternText pathname.toList))]
      else
        [exact (.ofList (patternText pathname.toList)),
          below (.ofList (Text.stripEnd '/' pathname.toList ++ ['/']))] := by
  unfold ofPathname
  dsimp only
  rw [if_neg, (Text.dropLast?_eq_none_iff '*' _).mpr proper.noStar]
  · rfl
  · rintro (empty | star | slash)
    · exact proper.nonempty empty
    · refine proper.noStar ?_
      rw [star]
      rfl
    · exact proper.notSlash slash

theorem kinds (pathname : String) :
    (pathname.toList = [] ∨ pathname.toList = ['*'] ∨ pathname.toList = ['/']) ∨
      (∃ beginning, beginning ≠ [] ∧ pathname.toList = beginning ++ ['*']) ∨ Proper pathname := by
  by_cases root : pathname.toList = [] ∨ pathname.toList = ['*'] ∨ pathname.toList = ['/']
  · exact .inl root
  · cases ends : Text.dropLast? '*' pathname.toList with
    | some beginning =>
        have whole := (Text.dropLast?_eq_some_iff _ _ _).mp ends
        refine .inr (.inl ⟨beginning, ?_, whole⟩)
        rintro rfl
        exact root (.inr (.inl whole))
    | none =>
        have noStar := (Text.dropLast?_eq_none_iff _ _).mp ends
        exact .inr (.inr ⟨fun empty => root (.inl empty), fun slash => root (.inr (.inr slash)),
          noStar⟩)

theorem proper_of_exact {text pathname : String} (member : exact text ∈ ofPathname pathname) :
    Proper pathname := by
  rcases kinds pathname with root | ⟨beginning, nonempty, ends⟩ | proper
  · rw [ofPathname_root root, List.mem_singleton] at member
    cases member
  · rw [ofPathname_star nonempty ends, List.mem_singleton] at member
    cases member
  · exact proper

theorem eq_patternText {text pathname : String} (member : exact text ∈ ofPathname pathname) :
    text = .ofList (patternText pathname.toList) := by
  rw [ofPathname_proper (proper_of_exact member)] at member
  split at member
  · rw [List.mem_singleton] at member
    cases member
    rfl
  · rw [List.mem_cons, List.mem_singleton] at member
    rcases member with same | impossible
    · cases same
      rfl
    · cases impossible

theorem nodup_ofPathname (pathname : String) : (ofPathname pathname).Nodup := by
  rcases kinds pathname with root | ⟨beginning, nonempty, ends⟩ | proper
  · rw [ofPathname_root root]
    exact List.pairwise_singleton _ _
  · rw [ofPathname_star nonempty ends]
    exact List.pairwise_singleton _ _
  · rw [ofPathname_proper proper]
    split
    · exact List.pairwise_singleton _ _
    · simp

end Pattern

end VirtualHosts.Dispatch
