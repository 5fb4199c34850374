/-
A route that stands alone.

In a set without other routes the search has no choice to make: it can find one route
only, and finds it for the path in which every parameter captures a single character.
What a pattern begins with behind its literal beginning is read off its text.
-/

import VirtualHosts.Proofs.Dispatch.LiteralRoutes

namespace VirtualHosts.Dispatch

variable {β : Type}

/-! ### The search finds candidates only -/

theorem afterCapture?_route {before tail after : List Char} {isLast : Bool}
    {candidate next : Candidate β}
    (passed : candidate.afterCapture? before tail isLast = some (after, next)) :
    next.1 = candidate.1 := by
  obtain ⟨route, segments⟩ := candidate
  cases segments with
  | nil => cases passed
  | cons segment others =>
      cases segment with
      | literal own => cases passed
      | rest before name => cases passed
      | capture own name behind =>
          rw [Candidate.afterCapture?] at passed
          split at passed
          · cases passed
            rfl
          · cases passed

theorem mem_settle {found : List (List Char × Candidate β)} {candidate : Candidate β}
    (member : candidate ∈ settle found) : ∃ after, (after, candidate) ∈ found := by
  obtain ⟨⟨after, _⟩, kept, rfl⟩ := List.mem_map.mp member
  exact ⟨after, (List.mem_filter.mp kept).1⟩

theorem search_mem (texts : List (List Char)) (candidates : List (Candidate β))
    {route : ExactRoute β} (found : search texts candidates = some route) :
    ∃ candidate ∈ candidates, candidate.1 = route := by
  induction texts generalizing candidates with
  | nil =>
      cases candidates with
      | nil => cases found
      | cons first rest =>
          rw [search_nil] at found
          obtain ⟨candidate, ended, rfl⟩ := Option.map_eq_some_iff.mp found
          exact ⟨candidate, List.mem_of_find?_eq_some ended, rfl⟩
  | cons text texts ih =>
      cases candidates with
      | nil => cases found
      | cons first rest =>
          rw [search_cons] at found
          rcases Option.or_eq_some_iff.mp found with passed | ⟨_, tried⟩
          · obtain ⟨next, member, rfl⟩ := ih _ passed
            obtain ⟨candidate, given, step⟩ := List.mem_filterMap.mp member
            exact ⟨candidate, given, (afterLiteral?_route step).1.symm⟩
          · obtain ⟨⟨before, tail⟩, _, chosen⟩ := List.exists_of_findSome?_eq_some tried
            dsimp only at chosen
            split at chosen
            · cases chosen
            · split at chosen
              · rename_i own segments captured
                cases chosen
                exact ⟨_, List.mem_of_find?_eq_some captured, rfl⟩
              · obtain ⟨next, member, rfl⟩ := ih _ chosen
                obtain ⟨after, settled⟩ := mem_settle member
                obtain ⟨candidate, given, step⟩ := List.mem_filterMap.mp settled
                exact ⟨candidate, given, (afterCapture?_route step).symm⟩

/-! ### Insertion into the empty set -/

/-- A text is a route by itself if it can be read, and its parameters stand where they may. -/
theorem insert_nil_iff (text : String) (value : β) (routes : RouteSet β) :
    RouteSet.insert [] text value = .ok routes ↔
      ∃ found segments, atoms mostCaptures .outside [] (pairBraces text.toList) = .ok found ∧
        readSegments (splitAtoms found) = (segments, none) ∧ routes = [⟨segments, value⟩] := by
  have alone (segments : List Segment) : RouteSet.contenders ([] : RouteSet β) segments = [] :=
    contenders_eq_nil fun _ _ impossible => absurd impossible List.not_mem_nil
  unfold RouteSet.insert
  cases atoms mostCaptures .outside [] (pairBraces text.toList) with
  | error failure => simp
  | ok found =>
      cases parsed : readSegments (splitAtoms found) with
      | mk segments misplaced =>
          simp only [alone, reported?_nil, List.find?_nil, List.nil_append, parsed]
          cases misplaced with
          | none => simp [parsed, eq_comm]
          | some failure => simp [parsed]

/-! ### What a parameter is read as -/

theorem atoms_within {left : Nat} {first : Char} {name : List Char} {late : List Nat}
    {marks : List Mark} {found : List Atom}
    (read : atoms left (.within (first :: name)) late marks = .ok found) :
    ∃ whole others, found = (if first = '*' then .rest whole else .capture whole) :: others := by
  induction marks generalizing name late with
  | nil => cases read
  | cons mark marks ih =>
      rw [atoms.eq_def] at read
      dsimp only at read
      split at read
      · split at read
        · rename_i star
          split at read
          · cases read
          · cases rest : atoms left .outside
                (creditsBehind mark.char (credits (.within (first :: name)) mark late)) marks with
            | error failure =>
                rw [rest] at read
                cases read
            | ok others =>
                rw [rest] at read
                cases read
                exact ⟨name, others, by rw [if_pos star]⟩
        · rename_i noStar
          cases left with
          | zero => cases read
          | succ left =>
              dsimp only at read
              generalize atoms left _ _ marks = rest at read
              cases rest with
              | error failure => cases read
              | ok others =>
                  cases read
                  exact ⟨first :: name, others, by rw [if_neg noStar]⟩
      · split at read
        · cases read
        · exact ih read

theorem pairBraces_cons (c : Char) (rest : List Char) :
    ∃ doubled marks, pairBraces (c :: rest) = ⟨c, doubled⟩ :: marks := by
  rw [pairBraces.eq_def]
  split
  · rename_i same
    cases same
    exact ⟨_, _, rfl⟩
  · rename_i same
    cases same
    exact ⟨_, _, rfl⟩
  · rename_i same
    cases same
    exact ⟨_, _, rfl⟩
  · rename_i same
    cases same

theorem atoms_opening {left : Nat} {c : Char} {rest : List Char} {found : List Atom}
    (read : atoms left .outside [] (pairBraces ('{' :: c :: rest)) = .ok found) :
    ∃ name others, found = (if c = '{' then .char '{'
      else if c = '*' then .rest name else .capture name) :: others := by
  by_cases brace : c = '{'
  · subst brace
    have paired : pairBraces ('{' :: '{' :: rest) = markOf '{' :: pairBraces rest := by
      rw [pairBraces]
      rfl
    rw [paired, atoms_cons_markOf] at read
    cases others : atoms left .outside [] (pairBraces rest) with
    | error failure =>
        rw [others] at read
        cases read
    | ok others' =>
        rw [others] at read
        cases read
        exact ⟨[], _, by rw [if_pos rfl]⟩
  · obtain ⟨doubled, marks, second⟩ := pairBraces_cons c rest
    have paired : pairBraces ('{' :: c :: rest) = ⟨'{', false⟩ :: ⟨c, doubled⟩ :: marks := by
      rw [← second, pairBraces]
      · intro tail _ same
        exact brace (List.cons.inj same).1
      · intro _ impossible
        cases impossible
    rw [paired, atoms.eq_def] at read
    simp only [credits, creditsBehind, List.filter_nil, List.map_nil, List.contains_nil,
      Bool.false_eq_true, if_false, if_true] at read
    rw [atoms.eq_def] at read
    dsimp only at read
    split at read
    · cases read
    · obtain ⟨name, others, rfl⟩ := atoms_within read
      exact ⟨name, others, by rw [if_neg brace]⟩

/-! ### A path for every route -/

def sample : Atom → Char
  | .char c => c
  | .capture _ | .rest _ => 'x'

/-- The path in which every parameter captures one character. -/
def fill (found : List Atom) : List Char :=
  found.map sample

theorem fill_map_char (chars : List Char) : fill (chars.map Atom.char) = chars := by
  rw [fill, List.map_map]
  exact List.map_id _

theorem sample_eq_slash (atom : Atom) : (atom == .char '/') = decide (sample atom = '/') := by
  rw [Bool.eq_iff_iff, beq_iff_eq, decide_eq_true_iff]
  cases atom with
  | char c => simp [sample]
  | capture name => simp [sample]
  | rest name => simp [sample]

theorem segments_fill (found : List Atom) :
    Text.segments (fill found) = (splitAtoms found).map fill := by
  induction found with
  | nil => rfl
  | cons atom found ih =>
      change Text.segments (sample atom :: fill found) = _
      rw [Text.segments_cons, ih, splitAtoms, sample_eq_slash]
      by_cases slash : sample atom = '/'
      · rw [if_pos slash, decide_eq_true slash]
        rfl
      · rw [if_neg slash, decide_eq_false slash]
        cases pieces : splitAtoms found with
        | nil =>
            rw [pieces] at ih
            exact absurd ih (Text.segments_ne_nil _)
        | cons piece others => rfl

theorem spanLiteral_append (found : List Atom) :
    found = (spanLiteral found).1.map Atom.char ++ (spanLiteral found).2 := by
  induction found with
  | nil => rfl
  | cons atom found ih =>
      cases atom with
      | char c =>
          rw [spanLiteral]
          exact congrArg (Atom.char c :: ·) ih
      | capture name => rfl
      | rest name => rfl

theorem spanLiteral_stops (found : List Atom) (c : Char) (others : List Atom) :
    (spanLiteral found).2 ≠ .char c :: others := by
  induction found with
  | nil => simp [spanLiteral]
  | cons atom found ih =>
      cases atom with
      | char own => exact ih
      | capture name => simp [spanLiteral]
      | rest name => simp [spanLiteral]

theorem fill_spanLiteral {found : List Atom} {before : List Char} {others : List Atom}
    (span : spanLiteral found = (before, others)) : fill found = before ++ fill others := by
  have whole := spanLiteral_append found
  rw [span] at whole
  rw [whole, fill, List.map_append, ← fill, ← fill, fill_map_char]

theorem ofAtoms_fill {isLast : Bool} {piece : List Atom} {segment : Segment}
    (read : Segment.ofAtoms isLast piece = (segment, none)) :
    segment = .literal (fill piece) ∨
      (∃ before name after, segment = .capture before name after ∧
        fill piece = before ++ 'x' :: after) ∨
      ∃ before name, segment = .rest before name ∧ isLast = true ∧
        fill piece = before ++ ['x'] := by
  unfold Segment.ofAtoms at read
  split at read
  · rename_i before span
    cases read
    rw [fill_spanLiteral span]
    simp [fill]
  · rename_i before name others span
    split at read
    · rename_i after tail
      cases read
      refine .inr (.inl ⟨before, name, after, rfl, ?_⟩)
      rw [fill_spanLiteral span]
      change before ++ 'x' :: fill others = _
      rw [fill_spanLiteral tail]
      simp [fill]
    · cases read
  · rename_i before name others span
    obtain ⟨same, unmisplaced⟩ := Prod.mk.inj read
    split at unmisplaced
    · rename_i last
      refine .inr (.inr ⟨before, name, same.symm, last.1, ?_⟩)
      rw [fill_spanLiteral span, last.2]
      rfl
    · cases unmisplaced
  · rename_i before c others span
    have stopped := spanLiteral_stops piece c others
    rw [span] at stopped
    exact absurd rfl stopped

/-! ### What a route begins with -/

def Segment.lead : Segment → List Char
  | literal text => text
  | capture before _ _ | rest before _ => before

theorem ofAtoms_lead (isLast : Bool) (piece : List Atom) :
    (Segment.ofAtoms isLast piece).1.lead = (spanLiteral piece).1 := by
  unfold Segment.ofAtoms
  split
  · rename_i span
    rw [span]
    rfl
  · rename_i span
    rw [span]
    split <;> rfl
  · rename_i span
    rw [span]
    rfl
  · rename_i span
    rw [span]
    rfl

theorem lead_prefix_of_match? {segment : Segment} {text : List Char}
    {captured : List (String × String)} (matched : segment.match? text = some captured) :
    segment.lead <+: text := by
  cases segment with
  | literal own =>
      rw [Segment.match?] at matched
      split at matched
      · rename_i same
        rw [← same]
        exact List.prefix_refl own
      · cases matched
  | capture before name after =>
      rw [Segment.match?] at matched
      split at matched
      · cases matched
      · rename_i dropped
        exact Text.prefix_of_dropBeginning? dropped
  | rest before name =>
      rw [Segment.match?] at matched
      split at matched
      · cases matched
      · cases matched
      · rename_i dropped
        exact Text.prefix_of_dropBeginning? dropped

theorem splitAtoms_cons_of_ne {atom : Atom} (other : atom ≠ .char '/') (found : List Atom) :
    ∃ piece pieces, splitAtoms (atom :: found) = (atom :: piece) :: pieces := by
  rw [splitAtoms, beq_eq_false_iff_ne.mpr other]
  cases splitAtoms found with
  | nil => exact ⟨[], [], rfl⟩
  | cons piece pieces => exact ⟨piece, pieces, rfl⟩

theorem readSegments_cons {piece : List Atom} {pieces : List (List Atom)}
    {segments : List Segment} (read : readSegments (piece :: pieces) = (segments, none)) :
    ∃ segment others, segments = segment :: others ∧
      Segment.ofAtoms pieces.isEmpty piece = (segment, none) ∧
        readSegments pieces = (others, none) := by
  rw [readSegments] at read
  split at read
  · cases read
  · rename_i segment parsed
    cases rest : readSegments pieces with
    | mk others failure =>
        rw [rest] at read
        cases read
        exact ⟨segment, others, rfl, parsed, rfl⟩

theorem readSegments_isEmpty {pieces : List (List Atom)} {segments : List Segment}
    (read : readSegments pieces = (segments, none)) : segments.isEmpty = pieces.isEmpty := by
  cases pieces with
  | nil =>
      cases read
      rfl
  | cons piece pieces =>
      obtain ⟨segment, others, rfl, _, _⟩ := readSegments_cons read
      rfl

theorem mem_cuts (before tail : List Char) : (before, tail) ∈ cuts (before ++ tail) := by
  refine List.mem_map.mpr ⟨before.length, ?_, ?_⟩
  · rw [List.mem_reverse, List.mem_range, List.length_append]
    omega
  · rw [List.splitAt_eq, List.take_left, List.drop_left]

theorem matchSegments?_fill {pieces : List (List Atom)} {segments : List Segment}
    (read : readSegments pieces = (segments, none)) :
    (matchSegments? segments (pieces.map fill)).isSome = true := by
  induction pieces generalizing segments with
  | nil =>
      cases read
      rfl
  | cons piece pieces ih =>
      obtain ⟨segment, others, rfl, parsed, rest⟩ := readSegments_cons read
      have later := Option.isSome_iff_exists.mp (ih rest)
      obtain ⟨captured, matched⟩ := later
      rcases ofAtoms_fill parsed with rfl | ⟨before, name, after, rfl, filled⟩ |
        ⟨before, name, rfl, last, filled⟩
      · rw [List.map_cons, matchSegments?, matched]
        simp [Segment.isRest, Segment.match?]
      · have dropped := Text.dropBeginning?_append before ('x' :: after)
        rw [List.map_cons, filled, matchSegments?, matched]
        simp [Segment.isRest, Segment.match?, dropped]
      · rw [List.isEmpty_iff] at last
        subst last
        have dropped := Text.dropBeginning?_append before ['x']
        rw [List.map_cons, filled, matchSegments?, List.map_nil, Text.join_singleton]
        simp [Segment.isRest, Segment.match?, dropped]

section Alone

variable (route : ExactRoute β) (others : List Segment) {texts : List (List Char)}

theorem search_alone_literal (text : List Char)
    (later : (search texts [(route, others)]).isSome = true) :
    (search (text :: texts) [(route, .literal text :: others)]).isSome = true := by
  have passed : [(route, Segment.literal text :: others)].filterMap
      (Candidate.afterLiteral? text) = [(route, others)] := by
    simp [Candidate.afterLiteral?]
  obtain ⟨found, reached⟩ := Option.isSome_iff_exists.mp later
  rw [search_cons, passed, reached]
  rfl

theorem search_alone_capture (before name after : List Char) (c : Char)
    (sameEnd : others.isEmpty = texts.isEmpty)
    (later : (search texts [(route, others)]).isSome = true) :
    (search ((before ++ c :: after) :: texts)
      [(route, .capture before name after :: others)]).isSome = true := by
  have stopped : search texts (([(route, Segment.capture before name after :: others)] :
      List (Candidate β)).filterMap (Candidate.afterLiteral? (before ++ c :: after))) = none := by
    cases texts <;> rfl
  have settled : settle (([(route, Segment.capture before name after :: others)] :
      List (Candidate β)).filterMap
        (Candidate.afterCapture? before (c :: after) texts.isEmpty)) = [(route, others)] := by
    have fits : after <:+ c :: after := List.suffix_cons c after
    simp [Candidate.afterCapture?, sameEnd, settle, fits]
  rw [search_cons, stopped, Option.none_or, List.findSome?_isSome_iff]
  refine ⟨(before, c :: after), mem_cuts before (c :: after), ?_⟩
  dsimp only
  rw [settled, if_neg (by simp)]
  exact later

theorem search_alone_rest (before name : List Char) (c : Char) :
    (search [before ++ [c]] [(route, [.rest before name])]).isSome = true := by
  have stopped : search [] (([(route, [Segment.rest before name])] :
      List (Candidate β)).filterMap (Candidate.afterLiteral? (before ++ [c]))) = none := rfl
  rw [search_cons, stopped, Option.none_or, List.findSome?_isSome_iff]
  refine ⟨(before, [c]), mem_cuts before [c], ?_⟩
  simp [Candidate.capturesRest]

end Alone

theorem search_fill {pieces : List (List Atom)} {segments : List Segment}
    (read : readSegments pieces = (segments, none)) (route : ExactRoute β) :
    (search (pieces.map fill) [(route, segments)]).isSome = true := by
  induction pieces generalizing segments with
  | nil =>
      cases read
      rfl
  | cons piece pieces ih =>
      obtain ⟨segment, others, rfl, parsed, rest⟩ := readSegments_cons read
      rw [List.map_cons]
      rcases ofAtoms_fill parsed with rfl | ⟨before, name, after, rfl, filled⟩ |
        ⟨before, name, rfl, last, filled⟩
      · exact search_alone_literal route others _ (ih rest)
      · have sameEnd : others.isEmpty = (pieces.map fill).isEmpty := by
          rw [readSegments_isEmpty rest, List.isEmpty_map]
        rw [filled]
        exact search_alone_capture route others before name after 'x' sameEnd (ih rest)
      · rw [List.isEmpty_iff] at last
        subst last
        cases rest
        rw [filled]
        exact search_alone_rest route before name 'x'

theorem find?_alone_isSome (segments : List Segment) (value : β) (path : String) :
    (RouteSet.find? [⟨segments, value⟩] path).isSome = true ↔
      (search (Text.segments path.toList)
        [((⟨segments, value⟩ : ExactRoute β), segments)]).isSome = true ∧
          (matchSegments? segments (Text.segments path.toList)).isSome = true := by
  unfold RouteSet.find?
  rw [List.map_singleton]
  dsimp only
  cases chosen : search (Text.segments path.toList)
      [((⟨segments, value⟩ : ExactRoute β), segments)] with
  | none => simp
  | some route =>
      obtain ⟨candidate, only, rfl⟩ := search_mem _ _ chosen
      rw [List.mem_singleton] at only
      subst only
      cases matched : matchSegments? segments (Text.segments path.toList) with
      | none => simp [matched]
      | some captured => simp [matched]

/-- A route alone in a set answers the path that it was filled to. -/
theorem find?_fill {found : List Atom} {segments : List Segment}
    (read : readSegments (splitAtoms found) = (segments, none)) (value : β) :
    (RouteSet.find? [⟨segments, value⟩] (.ofList (fill found))).isSome = true := by
  rw [find?_alone_isSome, String.toList_ofList, segments_fill]
  exact ⟨search_fill read _, matchSegments?_fill read⟩

/-- A route answers no path with a slash in front if it begins with other text, or with a
parameter that cannot be empty. -/
theorem matchSegments?_slash {atom : Atom} {found : List Atom} {segments : List Segment}
    (read : readSegments (splitAtoms (atom :: found)) = (segments, none))
    (begins : (∃ c, atom = .char c ∧ c ≠ '/') ∨ ∃ name, atom = .capture name)
    (tail : List Char) : matchSegments? segments (Text.segments ('/' :: tail)) = none := by
  have other : atom ≠ .char '/' := by
    rintro rfl
    rcases begins with ⟨c, same, different⟩ | ⟨name, impossible⟩
    · cases same
      exact different rfl
    · cases impossible
  obtain ⟨piece, pieces, parts⟩ := splitAtoms_cons_of_ne other found
  rw [parts] at read
  obtain ⟨segment, others, rfl, parsed, _⟩ := readSegments_cons read
  have lead := ofAtoms_lead pieces.isEmpty (atom :: piece)
  rw [parsed] at lead
  -- The first segment of the route meets the empty text, or the whole path as the rest.
  have whole := Text.join_segments ('/' :: tail)
  rw [Text.segments_cons, if_pos rfl] at whole ⊢
  rw [matchSegments?, whole]
  rcases begins with ⟨c, rfl, different⟩ | ⟨name, rfl⟩
  · rw [spanLiteral] at lead
    have refuses (text : List Char) (starts : text.head? ≠ some c) :
        segment.match? text = none := by
      rw [Option.eq_none_iff_forall_ne_some]
      intro captured matched
      obtain ⟨rest, same⟩ := lead_prefix_of_match? matched
      rw [lead] at same
      rw [← same] at starts
      exact starts rfl
    rw [refuses [] (by simp), refuses ('/' :: tail) (by simpa using different.symm)]
    split <;> rfl
  · rw [Segment.ofAtoms, spanLiteral] at parsed
    · dsimp only at parsed
      split at parsed
      · cases parsed
        simp [Segment.isRest, Segment.match?, Text.dropBeginning?]
      · cases parsed
    · intro c rest impossible
      cases impossible

theorem readSegments_rest {name : List Char} {found : List Atom} {segments : List Segment}
    (read : readSegments (splitAtoms (.rest name :: found)) = (segments, none)) :
    segments = [.rest [] name] := by
  have other : Atom.rest name ≠ .char '/' := by simp
  obtain ⟨piece, pieces, parts⟩ := splitAtoms_cons_of_ne other found
  rw [parts] at read
  obtain ⟨segment, others, rfl, parsed, later⟩ := readSegments_cons read
  rw [Segment.ofAtoms, spanLiteral] at parsed
  · obtain ⟨rfl, placed⟩ := Prod.mk.inj parsed
    split at placed
    · rename_i last
      obtain rfl := List.isEmpty_iff.mp last.1
      cases later
      rfl
    · cases placed
  · intro c rest impossible
    cases impossible

end VirtualHosts.Dispatch
