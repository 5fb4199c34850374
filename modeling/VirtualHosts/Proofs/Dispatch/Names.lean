/-
Pathnames whose parameters have names that are read as they are written.

Between its braces such a name has no brace that closes it too early, and no pair that counts
as one.  The pathname is then read segment by segment: a segment that names a parameter is read
as that parameter and nothing beside it, and every other one as its own text.
-/

import VirtualHosts.Proofs.Dispatch.Insertion

namespace VirtualHosts.Dispatch

/-! ### Names -/

def parameterName? : List Char → Option (List Char)
  | ':' :: first :: name => some (first :: name)
  | _ => none

/-- The names of the parameters of a pathname, in their order. -/
def parameterNames (chars : List Char) : List (List Char) :=
  (Text.segments chars).filterMap parameterName?

theorem namesParameter_eq (segment : List Char) :
    namesParameter segment = (parameterName? segment).isSome := by
  unfold namesParameter
  split
  · rfl
  · rename_i other
    rw [parameterName?]
    · rfl
    · exact other

theorem parameterNames_ne_nil_iff {chars : List Char} :
    parameterNames chars ≠ [] ↔ ∃ part ∈ Text.segments chars, namesParameter part = true := by
  simp [parameterNames, List.filterMap_eq_nil_iff, namesParameter_eq, Option.isSome_iff_ne_none]

/-- With a parameter and without a star at its end, a pathname is its exact route and nothing
else. -/
theorem Pattern.ofPathname_named {pathname : String}
    (noStar : pathname.toList.getLast? ≠ some '*')
    (named : parameterNames pathname.toList ≠ []) :
    ofPathname pathname = [exact (.ofList (patternText pathname.toList))] := by
  have proper : Proper pathname := by
    refine ⟨fun empty => named ?_, fun slash => named ?_, noStar⟩
    · rw [empty]
      rfl
    · rw [slash]
      rfl
  rw [ofPathname_proper proper, if_pos (any_isMarked_of_names (parameterNames_ne_nil_iff.mp named))]

/-- Whether a name is read between braces as it is written. -/
structure Legible (name : List Char) : Prop where
  closed : '}' ∉ name
  single : ¬['{', '{'] <:+: '{' :: name

instance (name : List Char) : Decidable (Legible name) :=
  decidable_of_iff ('}' ∉ name ∧ ¬['{', '{'] <:+: '{' :: name)
    ⟨fun ⟨closed, single⟩ => ⟨closed, single⟩, fun legible => ⟨legible.closed, legible.single⟩⟩

theorem parameterName?_eq_some_iff {segment name : List Char} :
    parameterName? segment = some name ↔ name ≠ [] ∧ segment = ':' :: name := by
  unfold parameterName?
  split
  · rename_i first rest
    constructor
    · intro same
      cases same
      exact ⟨List.cons_ne_nil _ _, rfl⟩
    · rintro ⟨_, same⟩
      rw [(List.cons.inj same).2]
  · rename_i other
    simp only [reduceCtorEq, false_iff, not_and]
    intro some same
    obtain ⟨first, rest, rfl⟩ := List.exists_cons_of_ne_nil some
    exact other first rest same

theorem mem_parameterNames {chars name : List Char} :
    name ∈ parameterNames chars ↔ name ≠ [] ∧ ':' :: name ∈ Text.segments chars := by
  simp only [parameterNames, List.mem_filterMap, parameterName?_eq_some_iff]
  constructor
  · rintro ⟨segment, member, some, rfl⟩
    exact ⟨some, member⟩
  · rintro ⟨some, member⟩
    exact ⟨_, member, some, rfl⟩

theorem Legible.opening {first : Char} {name : List Char} (legible : Legible (first :: name)) :
    first ≠ '{' ∧ first ≠ '}' := by
  constructor
  · rintro rfl
    exact legible.single (List.prefix_append ['{', '{'] name).isInfix
  · rintro rfl
    exact legible.closed List.mem_cons_self

/-- A name without braces is legible. -/
theorem legible_of_unbraced {name : List Char} (unbraced : ∀ c ∈ name, isBrace c = false) :
    Legible name := by
  have missing {c : Char} (brace : isBrace c = true) : c ∉ name := by
    intro member
    rw [unbraced c member] at brace
    cases brace
  refine ⟨missing rfl, fun double => missing (c := '{') rfl ?_⟩
  rcases List.infix_cons_iff.mp double with front | inside
  · exact (List.cons_prefix_cons.mp front).2.subset List.mem_cons_self
  · exact inside.subset List.mem_cons_self

def isWordChar (c : Char) : Bool :=
  c.isAlphanum || c == '_'

/-- Whether the names of the parameters of a pathname are made of letters, digits and
underscores, as the names of variables are. -/
def WordNames (chars : List Char) : Prop :=
  ∀ name ∈ parameterNames chars, name.all isWordChar = true

instance (chars : List Char) : Decidable (WordNames chars) :=
  inferInstanceAs (Decidable (∀ name ∈ parameterNames chars, name.all isWordChar = true))

theorem WordNames.legible {chars : List Char} (words : WordNames chars) :
    ∀ name ∈ parameterNames chars, Legible name := by
  intro name member
  refine legible_of_unbraced fun c inName => ?_
  have word := List.all_eq_true.mp (words name member) c inName
  rw [← Bool.not_eq_true]
  intro brace
  rcases (of_decide_eq_true brace : c = '{' ∨ c = '}') with rfl | rfl <;> cases word

theorem WordNames.starless {chars : List Char} (words : WordNames chars) :
    ∀ name ∈ parameterNames chars, '*' ∉ name := by
  intro name member star
  have word := List.all_eq_true.mp (words name member) '*' star
  cases word

/-! ### Segments -/

def segmentAtoms : List Char → List Atom
  | ':' :: '*' :: name => [.rest name]
  | ':' :: first :: name => [.capture (first :: name)]
  | segment => segment.map .char

def segmentOf : List Char → Segment
  | ':' :: '*' :: name => .rest [] name
  | ':' :: first :: name => .capture [] (first :: name) []
  | segment => .literal segment

theorem segmentAtoms_of_plain {segment : List Char} (plain : namesParameter segment = false) :
    segmentAtoms segment = segment.map .char := by
  unfold segmentAtoms
  split
  · cases plain
  · cases plain
  · rfl

theorem segmentAtoms_of_name {first : Char} (noStar : first ≠ '*') (name : List Char) :
    segmentAtoms (':' :: first :: name) = [.capture (first :: name)] := by
  rw [segmentAtoms]
  exact noStar

theorem segmentOf_of_plain {segment : List Char} (plain : namesParameter segment = false) :
    segmentOf segment = .literal segment := by
  unfold segmentOf
  split
  · cases plain
  · cases plain
  · rfl

theorem segmentOf_of_name {first : Char} (noStar : first ≠ '*') (name : List Char) :
    segmentOf (':' :: first :: name) = .capture [] (first :: name) [] := by
  rw [segmentOf]
  exact noStar

/-! ### A name between braces -/

theorem pairBraces_cons_of_head? {c : Char} {rest : List Char} (alone : rest.head? ≠ some c) :
    pairBraces (c :: rest) = ⟨c, false⟩ :: pairBraces rest := by
  rw [pairBraces.eq_def]
  split
  · rename_i same
    cases same
    exact absurd rfl alone
  · rename_i same
    cases same
    exact absurd rfl alone
  · rename_i same
    cases same
    rfl
  · rename_i same
    cases same

theorem pairBraces_append_of_single {chars rest : List Char} (closed : '}' ∉ chars)
    (single : ¬['{', '{'] <:+: chars) (next : rest.head? ≠ some '{') :
    pairBraces (chars ++ rest) = chars.map (⟨·, false⟩) ++ pairBraces rest := by
  induction chars with
  | nil => rfl
  | cons c chars ih =>
      rw [List.mem_cons, not_or] at closed
      rw [List.infix_cons_iff, not_or] at single
      have alone : (chars ++ rest).head? ≠ some c ∨ isBrace c = false := by
        by_cases brace : c = '{'
        · subst brace
          left
          cases chars with
          | nil => exact next
          | cons second chars =>
              intro same
              cases same
              exact single.1 (List.prefix_append ['{', '{'] chars)
        · right
          exact decide_eq_false (not_or.mpr ⟨brace, Ne.symm closed.1⟩)
      rw [List.cons_append, List.map_cons, List.cons_append, ← ih closed.2 single.2]
      rcases alone with alone | plain
      · exact pairBraces_cons_of_head? alone
      · exact pairBraces_cons_of_not_isBrace plain _

theorem pairBraces_parameter {first : Char} {name rest : List Char}
    (legible : Legible (first :: name)) (alone : rest.head? ≠ some '}') :
    pairBraces (segmentText (':' :: first :: name) ++ rest) =
      ⟨'{', false⟩ :: ⟨first, false⟩ ::
        (name.map (⟨·, false⟩) ++ ⟨'}', false⟩ :: pairBraces rest) := by
  have text : segmentText (':' :: first :: name) ++ rest =
      ('{' :: first :: name) ++ '}' :: rest := by
    simp [segmentText]
  have closed : '}' ∉ '{' :: first :: name := by
    rw [List.mem_cons, not_or]
    exact ⟨by decide, legible.closed⟩
  rw [text, pairBraces_append_of_single closed legible.single (by simp),
    pairBraces_cons_of_head? alone]
  rfl

/-- Outside of names, where no pair of braces has been displaced. -/
inductive Between : Place → Prop
  | outside : Between .outside
  | behind (surplus : Nat) : Between (.behind surplus)

theorem atoms_end {place : Place} (between : Between place) (left : Nat) :
    atoms left place [] [] = .ok [] := by
  cases between <;> rfl

theorem atoms_slash {place : Place} (between : Between place) (left : Nat) (marks : List Mark) :
    atoms left place [] (⟨'/', false⟩ :: marks) =
      (atoms left .outside [] marks).map (.char '/' :: ·) := by
  cases between <;> rw [atoms.eq_def] <;> simp [credits, creditsBehind]

/-- The characters of a name are gathered, but a star behind the first one is refused. -/
theorem atoms_name (left : Nat) (first : Char) (known : List Char) {name : List Char}
    (closed : '}' ∉ name) (noSlash : '/' ∉ name) (marks : List Mark) :
    atoms left (.within (first :: known)) [] (name.map (⟨·, false⟩) ++ marks) =
      if '*' ∈ name then .error invalidName
      else atoms left (.within (first :: known ++ name)) [] marks := by
  induction name generalizing known with
  | nil => simp
  | cons c name ih =>
      rw [List.mem_cons, not_or] at closed noSlash
      rw [List.map_cons, List.cons_append, atoms.eq_def]
      simp only [credits, creditsBehind, List.filter_nil, List.map_nil, List.contains_nil,
        Bool.false_eq_true, if_false, Ne.symm closed.1, Ne.symm noSlash.1, false_and, or_false]
      by_cases star : c = '*'
      · rw [if_pos star, star, if_pos List.mem_cons_self]
      · have sameStar : ('*' ∈ c :: name) = ('*' ∈ name) := by
          simp [Ne.symm star]
        rw [if_neg star, List.cons_append, ih _ closed.2 noSlash.2]
        simp only [sameStar, List.cons_append, List.append_assoc, List.nil_append]

theorem atoms_close (left : Nat) (first : Char) (name : List Char) (marks : List Mark) :
    atoms left (.within (first :: name)) [] (⟨'}', false⟩ :: marks) =
      if first = '*' then
        if name = [] then .error invalidName
        else (atoms left .outside [] marks).map (.rest name :: ·)
      else
        match left with
        | 0 => .error tooManyCaptures
        | left + 1 =>
            (atoms left (.behind ((String.ofList (first :: name)).utf8ByteSize - 1)) [] marks).map
              (.capture (first :: name) :: ·) := by
  rw [atoms.eq_def]
  cases left with
  | zero => simp [credits, creditsBehind]
  | succ left => simp [credits, creditsBehind]

theorem atoms_parameter (left : Nat) {first : Char} {name rest : List Char}
    (legible : Legible (first :: name)) (noSlash : '/' ∉ name) (alone : rest.head? ≠ some '}') :
    atoms left .outside [] (pairBraces (segmentText (':' :: first :: name) ++ rest)) =
      if '*' ∈ name then .error invalidName
      else atoms left (.within (first :: name)) [] (⟨'}', false⟩ :: pairBraces rest) := by
  have closed : '}' ∉ name := fun member => legible.closed (List.mem_cons_of_mem _ member)
  rw [pairBraces_parameter legible alone, atoms.eq_def]
  simp only [credits, creditsBehind, List.filter_nil, List.map_nil, List.contains_nil,
    Bool.false_eq_true, if_false, if_true]
  rw [atoms.eq_def]
  simp only [credits, creditsBehind, if_neg legible.opening.2]
  exact atoms_name left first [] closed noSlash _

/-! ### A segment -/

/-- A segment that can be read is read as its atoms. -/
theorem atoms_segment {left : Nat} {segment rest : List Char} {found : List Atom}
    (legible : ∀ name, parameterName? segment = some name → Legible name) (noSlash : '/' ∉ segment)
    (alone : rest.head? ≠ some '}')
    (read : atoms left .outside [] (pairBraces (segmentText segment ++ rest)) = .ok found) :
    ∃ left place others, Between place ∧ atoms left place [] (pairBraces rest) = .ok others ∧
      found = segmentAtoms segment ++ others := by
  cases names : namesParameter segment with
  | false =>
      rw [segmentText_eq_doubleBraces names, pairBraces_doubleBraces_append,
        atoms_markOf_append] at read
      obtain ⟨others, later, rfl⟩ := map_eq_ok_iff.mp read
      refine ⟨left, .outside, others, .outside, later, ?_⟩
      rw [segmentAtoms_of_plain names]
  | true =>
      obtain ⟨first, name, rfl⟩ := (namesParameter_iff segment).mp names
      have inName : '/' ∉ name := fun slash => noSlash (by simp [slash])
      rw [atoms_parameter left (legible _ rfl) inName alone, atoms_close] at read
      split at read
      · cases read
      · split at read
        · rename_i star
          subst star
          split at read
          · cases read
          · obtain ⟨others, later, rfl⟩ := map_eq_ok_iff.mp read
            exact ⟨left, .outside, others, .outside, later, rfl⟩
        · rename_i noStar
          split at read
          · cases read
          · obtain ⟨others, later, rfl⟩ := map_eq_ok_iff.mp read
            refine ⟨_, .behind _, others, .behind _, later, ?_⟩
            rw [segmentAtoms_of_name noStar]
            rfl

/-- A segment whose name has no star can be read, if one parameter more is allowed. -/
theorem atoms_segment_of_starless (left : Nat) (segment rest : List Char)
    (legible : ∀ name, parameterName? segment = some name → Legible name)
    (starless : ∀ name, parameterName? segment = some name → '*' ∉ name) (noSlash : '/' ∉ segment)
    (alone : rest.head? ≠ some '}') :
    ∃ place, Between place ∧ atoms (left + (parameterName? segment).toList.length) .outside []
        (pairBraces (segmentText segment ++ rest)) =
      (atoms left place [] (pairBraces rest)).map (segmentAtoms segment ++ ·) := by
  cases names : namesParameter segment with
  | false =>
      have nameless : parameterName? segment = none := by
        rwa [namesParameter_eq, Option.isSome_eq_false_iff, Option.isNone_iff_eq_none] at names
      refine ⟨.outside, .outside, ?_⟩
      rw [nameless, segmentText_eq_doubleBraces names, pairBraces_doubleBraces_append,
        atoms_markOf_append, segmentAtoms_of_plain names]
      rfl
  | true =>
      obtain ⟨first, name, rfl⟩ := (namesParameter_iff segment).mp names
      have inName : '/' ∉ name := fun slash => noSlash (by simp [slash])
      have noStar := starless _ rfl
      rw [List.mem_cons, not_or] at noStar
      refine ⟨.behind ((String.ofList (first :: name)).utf8ByteSize - 1), .behind _, ?_⟩
      rw [atoms_parameter _ (legible _ rfl) inName alone, if_neg noStar.2, atoms_close,
        if_neg (Ne.symm noStar.1), segmentAtoms_of_name (Ne.symm noStar.1)]
      rfl

/-! ### A pathname -/

theorem splitAtoms_cons {atom : Atom} (noSlash : Atom.char '/' ≠ atom) {found piece : List Atom}
    {pieces : List (List Atom)} (rest : splitAtoms found = piece :: pieces) :
    splitAtoms (atom :: found) = (atom :: piece) :: pieces := by
  rw [splitAtoms, beq_eq_false_iff_ne.mpr noSlash.symm, rest]

theorem splitAtoms_of_notMem {piece : List Atom} (noSlash : Atom.char '/' ∉ piece) :
    splitAtoms piece = [piece] := by
  induction piece with
  | nil => rfl
  | cons atom piece ih =>
      rw [List.mem_cons, not_or] at noSlash
      exact splitAtoms_cons noSlash.1 (ih noSlash.2)

theorem splitAtoms_append {piece : List Atom} (noSlash : Atom.char '/' ∉ piece)
    (found : List Atom) : splitAtoms (piece ++ .char '/' :: found) = piece :: splitAtoms found := by
  induction piece with
  | nil => rfl
  | cons atom piece ih =>
      rw [List.mem_cons, not_or] at noSlash
      exact splitAtoms_cons noSlash.1 (ih noSlash.2)

theorem slash_notMem_segmentAtoms {segment : List Char} (noSlash : '/' ∉ segment) :
    Atom.char '/' ∉ segmentAtoms segment := by
  unfold segmentAtoms
  split
  · simp
  · simp
  · simpa using noSlash

section Parts

variable {parts : List (List Char)}

theorem splitAtoms_join (some : parts ≠ [])
    (legible : ∀ name ∈ parts.filterMap parameterName?, Legible name)
    (noSlash : ∀ part ∈ parts, '/' ∉ part) {left : Nat} {found : List Atom}
    (read : atoms left .outside []
      (pairBraces (Text.join ['/'] (parts.map segmentText))) = .ok found) :
    splitAtoms found = parts.map segmentAtoms := by
  induction parts generalizing left found with
  | nil => exact absurd rfl some
  | cons part others ih =>
      have own : ∀ name, parameterName? part = Option.some name → Legible name := by
        intro name same
        exact legible name (List.mem_filterMap.mpr ⟨part, List.mem_cons_self, same⟩)
      have atPart := noSlash part List.mem_cons_self
      have apart := slash_notMem_segmentAtoms atPart
      cases others with
      | nil =>
          rw [List.map_singleton, Text.join_singleton, ← List.append_nil (segmentText part)] at read
          obtain ⟨left, place, others, between, later, rfl⟩ :=
            atoms_segment own atPart (by simp) read
          rw [pairBraces, atoms_end between] at later
          cases later
          rw [List.append_nil, splitAtoms_of_notMem apart, List.map_singleton]
      | cons second others =>
          rw [List.map_cons, List.map_cons, Text.join_cons_cons, List.append_assoc] at read
          obtain ⟨left, place, found, between, later, rfl⟩ :=
            atoms_segment own atPart (by simp) read
          rw [List.singleton_append, pairBraces_cons_of_not_isBrace rfl,
            atoms_slash between] at later
          obtain ⟨rest, inner, rfl⟩ := map_eq_ok_iff.mp later
          have behind := ih (List.cons_ne_nil _ _)
            (fun name member => legible name (by
              rw [List.filterMap_cons]
              split
              · exact member
              · exact List.mem_cons_of_mem _ member))
            (fun part member => noSlash part (List.mem_cons_of_mem _ member)) inner
          rw [splitAtoms_append apart, behind]
          rfl

/-- Nothing but the number of parameters can be wrong with names that are for one segment. -/
theorem atoms_join_of_starless (legible : ∀ name ∈ parts.filterMap parameterName?, Legible name)
    (starless : ∀ name ∈ parts.filterMap parameterName?, '*' ∉ name)
    (noSlash : ∀ part ∈ parts, '/' ∉ part) (left : Nat) :
    ∃ found, atoms (left + (parts.filterMap parameterName?).length) .outside []
      (pairBraces (Text.join ['/'] (parts.map segmentText))) = .ok found := by
  induction parts generalizing left with
  | nil => exact ⟨[], rfl⟩
  | cons part others ih =>
      have names : (part :: others).filterMap parameterName? =
          (parameterName? part).toList ++ others.filterMap parameterName? := by
        rw [List.filterMap_cons]
        cases parameterName? part <;> rfl
      rw [names] at legible starless
      obtain ⟨place, between, read⟩ := atoms_segment_of_starless
        (left + (others.filterMap parameterName?).length) part
        (if others = [] then [] else '/' :: Text.join ['/'] (others.map segmentText))
        (fun name same => legible name (List.mem_append_left _ (Option.mem_toList.mpr same)))
        (fun name same => starless name (List.mem_append_left _ (Option.mem_toList.mpr same)))
        (noSlash part List.mem_cons_self) (by split <;> simp)
      have joined : Text.join ['/'] ((part :: others).map segmentText) = segmentText part ++
          if others = [] then [] else '/' :: Text.join ['/'] (others.map segmentText) := by
        cases others with
        | nil => rw [List.map_singleton, Text.join_singleton, if_pos rfl, List.append_nil]
        | cons second others =>
            rw [List.map_cons, List.map_cons, Text.join_cons_cons, List.append_assoc,
              if_neg (List.cons_ne_nil _ _)]
            rfl
      have total : left + ((part :: others).filterMap parameterName?).length =
          left + (others.filterMap parameterName?).length +
            (parameterName? part).toList.length := by
        rw [names, List.length_append]
        omega
      rw [joined, total, read]
      cases others with
      | nil =>
          rw [if_pos rfl, pairBraces, atoms_end between]
          exact ⟨_, rfl⟩
      | cons second others =>
          obtain ⟨found, later⟩ := ih
            (fun name member => legible name (List.mem_append_right _ member))
            (fun name member => starless name (List.mem_append_right _ member))
            (fun part member => noSlash part (List.mem_cons_of_mem _ member)) left
          rw [if_neg (List.cons_ne_nil _ _), pairBraces_cons_of_not_isBrace rfl,
            atoms_slash between, later]
          exact ⟨_, rfl⟩

theorem ofAtoms_segmentAtoms_of_starless (part : List Char)
    (starless : ∀ name, parameterName? part = some name → '*' ∉ name) (isLast : Bool) :
    Segment.ofAtoms isLast (segmentAtoms part) = (segmentOf part, none) := by
  cases names : namesParameter part with
  | false =>
      rw [segmentAtoms_of_plain names, segmentOf_of_plain names, Segment.ofAtoms, spanLiteral_char]
  | true =>
      obtain ⟨first, name, rfl⟩ := (namesParameter_iff part).mp names
      have noStar : first ≠ '*' := fun star => starless _ rfl (star ▸ List.mem_cons_self)
      rw [segmentAtoms_of_name noStar, segmentOf_of_name noStar]
      rfl

theorem readSegments_segmentAtoms
    (starless : ∀ name ∈ parts.filterMap parameterName?, '*' ∉ name) :
    readSegments (parts.map segmentAtoms) = (parts.map segmentOf, none) := by
  induction parts with
  | nil => rfl
  | cons part others ih =>
      have own := ofAtoms_segmentAtoms_of_starless part (fun name same =>
        starless name (List.mem_filterMap.mpr ⟨part, List.mem_cons_self, same⟩))
      have later := ih fun name member => by
        obtain ⟨other, inside, same⟩ := List.mem_filterMap.mp member
        exact starless name (List.mem_filterMap.mpr ⟨other, List.mem_cons_of_mem _ inside, same⟩)
      rw [List.map_cons, readSegments, own, later]
      rfl

end Parts

theorem ofAtoms_segmentAtoms {isLast : Bool} {part : List Char} {segment : Segment}
    (parsed : Segment.ofAtoms isLast (segmentAtoms part) = (segment, none)) :
    segment = segmentOf part := by
  unfold segmentAtoms at parsed
  split at parsed
  · exact (Prod.mk.inj parsed).1.symm
  · rename_i first name noStar
    rw [segmentOf]
    · exact (Prod.mk.inj parsed).1.symm
    · exact noStar
  · rename_i noRest noCapture
    rw [Segment.ofAtoms, spanLiteral_char] at parsed
    rw [segmentOf]
    · exact (Prod.mk.inj parsed).1.symm
    · exact noRest
    · exact noCapture

/-- A pathname with legible names is read segment by segment. -/
theorem routeOf?_of_legible {chars : List Char}
    (legible : ∀ name ∈ parameterNames chars, Legible name) {segments : List Segment}
    (read : routeOf? (.ofList (patternText chars)) = some segments) :
    segments = (Text.segments chars).map segmentOf := by
  obtain ⟨found, atomsRead, parsed⟩ := routeOf?_eq_some_iff.mp read
  rw [String.toList_ofList, patternText] at atomsRead
  rw [splitAtoms_join (Text.segments_ne_nil chars) legible (Text.slash_notMem_segments chars)
    atomsRead] at parsed
  clear read
  generalize Text.segments chars = parts at parsed
  induction parts generalizing segments with
  | nil =>
      cases parsed
      rfl
  | cons part parts ih =>
      obtain ⟨segment, others, rfl, first, rest⟩ := readSegments_cons parsed
      rw [ofAtoms_segmentAtoms first, ih rest, List.map_cons]

/-- A pathname whose names are for one segment each is a route, unless it has too many. -/
theorem routeOf?_of_starless {chars : List Char}
    (legible : ∀ name ∈ parameterNames chars, Legible name)
    (starless : ∀ name ∈ parameterNames chars, '*' ∉ name)
    (few : (parameterNames chars).length ≤ mostCaptures) :
    routeOf? (.ofList (patternText chars)) = some ((Text.segments chars).map segmentOf) := by
  have noSlash := Text.slash_notMem_segments chars
  obtain ⟨found, read⟩ := atoms_join_of_starless legible starless noSlash
    (mostCaptures - (parameterNames chars).length)
  rw [← parameterNames, Nat.sub_add_cancel few, ← patternText] at read
  refine routeOf?_eq_some_iff.mpr ⟨found, by rw [String.toList_ofList, read], ?_⟩
  rw [splitAtoms_join (Text.segments_ne_nil chars) legible noSlash read]
  exact readSegments_segmentAtoms starless

end VirtualHosts.Dispatch
