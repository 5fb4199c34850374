/-
Paths that are answered, and the location that passes them on.

The web server passes a path on to the process if the path begins as the location of a
pathname does.  The patterns of the pathname decide by themselves what the process
answers.  Both are about the same paths but for two kinds of pathnames: those with a
parameter, which the location takes for text, and those with more than one slash at their
end, all of which the location keeps.
-/

import VirtualHosts.Compilation
import VirtualHosts.Proofs.Dispatch.LoneRoute
import VirtualHosts.Proofs.Sequence

namespace VirtualHosts.Dispatch

/-- Whether a path is answered under a pattern: an exact pattern answers what the set finds
that holds it alone. -/
def Pattern.Answers (path : String) : Pattern → Prop
  | .exact text => ∃ routes, RouteSet.insert [] text () = .ok routes ∧
      (routes.find? path).isSome = true
  | .below beginning => Text.startsWith path beginning = true

/-- Whether some path that is answered for a pathname does not begin as its location.  A
parameter counts if the pathname can be read as a route, and an answered path can begin
with a slash. -/
def withheld (pathname : String) : Bool :=
  let chars := pathname.toList
  let segments := Text.segments chars
  chars.getLast? ≠ some '*' ∧
    if segments.any namesParameter then
      (RouteSet.insert [] (.ofList (patternText chars)) ()).isOk ∧
        (['/'] <+: chars ∨ [':', '*'] <+: chars)
    else segments.any isMarked = false ∧ ['/'] <+: chars ∧ ['/', '/'] <:+ chars

/-! ### Locations -/

theorem locationChars_root {chars : List Char}
    (root : chars = [] ∨ chars = ['*'] ∨ chars = ['/']) : locationChars chars = ['/'] := by
  rcases root with rfl | rfl | rfl <;> rfl

theorem locationChars_star {chars beginning : List Char} (nonempty : beginning ≠ [])
    (ends : chars = beginning ++ ['*']) : locationChars chars = beginning := by
  have longer := Pattern.not_root_of_star nonempty ends
  unfold locationChars
  rw [if_neg fun short => longer (short.imp_right .inl),
    (Text.dropLast?_eq_some_iff '*' _ beginning).mpr ends]
  cases beginning with
  | nil => exact absurd rfl nonempty
  | cons first others => rfl

theorem locationChars_proper {pathname : String} (proper : Pattern.Proper pathname) :
    locationChars pathname.toList = pathname.toList := by
  unfold locationChars
  rw [if_neg, (Text.dropLast?_eq_none_iff '*' _).mpr proper.noStar]
  rintro (empty | star)
  · exact proper.nonempty empty
  · apply proper.noStar
    rw [star]
    rfl

theorem startsWith_location (path pathname : String) :
    Text.startsWith path (locationPath pathname) = true ↔
      locationChars pathname.toList <+: path.toList := by
  rw [Text.startsWith_iff, locationPath, String.toList_ofList]

/-! ### Pathnames without parameters -/

theorem answers_exact_literal {chars : List Char}
    (plain : ∀ segment ∈ Text.segments chars, namesParameter segment = false) (path : String) :
    (Pattern.exact (.ofList (patternText chars))).Answers path ↔ path.toList = chars := by
  rw [patternText_eq_doubleBraces plain]
  have inserted : RouteSet.insert [] (.ofList (doubleBraces chars)) () =
      .ok [⟨literalSegments chars, ()⟩] := by
    rw [insert_literal]
    rfl
  have literal (route : ExactRoute Unit) (only : route ∈ [⟨literalSegments chars, ()⟩]) :
      ∃ own, route.segments = literalSegments own := by
    rw [List.mem_singleton.mp only]
    exact ⟨chars, rfl⟩
  constructor
  · rintro ⟨routes, held, found⟩
    rw [inserted] at held
    cases held
    rw [find?_literal literal, Option.isSome_map, List.find?_isSome] at found
    obtain ⟨route, only, same⟩ := found
    rw [List.mem_singleton.mp only, beq_iff_eq] at same
    exact (literalSegments_injective same).symm
  · rintro rfl
    refine ⟨_, inserted, ?_⟩
    rw [find?_literal literal, Option.isSome_map, List.find?_isSome]
    exact ⟨_, List.mem_singleton.mpr rfl, beq_self_eq_true _⟩

/-! ### Pathnames with a parameter -/

/-- The atoms of a pathname are its characters up to the first parameter, and there one atom
that no colon can stand for. -/
theorem atoms_of_namesParameter {chars : List Char} {found : List Atom}
    (names : ∃ segment ∈ Text.segments chars, namesParameter segment = true)
    (read : atoms mostCaptures .outside [] (pairBraces (patternText chars)) = .ok found) :
    ∃ lead first plain opening others, chars = lead ++ ':' :: first :: plain ∧
      found = lead.map Atom.char ++ opening :: others ∧ sample opening ≠ ':' ∧
        (lead = [] → opening = .char '{' ∨ (∃ name, opening = .capture name) ∨
          first = '*' ∧ ∃ name, opening = .rest name) := by
  obtain ⟨lead, first, plain, text, joined, joinedText⟩ := join_of_namesParameter names
  rw [Text.join_segments] at joined
  rw [patternText, joinedText, pairBraces_doubleBraces_append, atoms_markOf_append] at read
  cases inner : atoms mostCaptures .outside [] (pairBraces ('{' :: first :: text)) with
  | error failure =>
      rw [inner] at read
      cases read
  | ok opened =>
      rw [inner] at read
      cases read
      obtain ⟨name, others, rfl⟩ := atoms_opening inner
      refine ⟨lead, first, plain, _, others, joined, rfl, ?_, ?_⟩
      · split
        · decide
        · split <;> simp [sample]
      · intro _
        split
        · exact .inl rfl
        · split
          · rename_i star
            exact .inr (.inr ⟨star, name, rfl⟩)
          · exact .inr (.inl ⟨name, rfl⟩)

theorem slash_starts_iff (chars : List Char) :
    ['/'] <+: chars ↔ ∃ tail, chars = '/' :: tail := by
  constructor
  · intro starts
    obtain ⟨tail, same⟩ := starts
    exact ⟨tail, same.symm⟩
  · intro starts
    obtain ⟨tail, same⟩ := starts
    exact ⟨tail, same.symm⟩

/-- A path with a slash in front is answered for a pathname with a parameter only if the
pathname has a slash in front, or a parameter for the rest. -/
theorem starts_of_answers {chars : List Char} {path : String}
    (names : ∃ segment ∈ Text.segments chars, namesParameter segment = true)
    (answers : (Pattern.exact (.ofList (patternText chars))).Answers path)
    (slash : ['/'] <+: path.toList) : ['/'] <+: chars ∨ [':', '*'] <+: chars := by
  obtain ⟨routes, inserted, found⟩ := answers
  rw [insert_nil_iff, String.toList_ofList] at inserted
  obtain ⟨read, segments, atomsRead, segmentsRead, rfl⟩ := inserted
  have matched := ((find?_alone_isSome segments () path).mp found).2
  obtain ⟨tail, begins⟩ := (slash_starts_iff path.toList).mp slash
  rw [begins] at matched
  obtain ⟨lead, first, plain, opening, others, whole, rfl, _, byOpening⟩ :=
    atoms_of_namesParameter names atomsRead
  have refused {atom : Atom} {rest : List Atom}
      (parsed : readSegments (splitAtoms (atom :: rest)) = (segments, none))
      (start : (∃ c, atom = .char c ∧ c ≠ '/') ∨ ∃ name, atom = .capture name) : False := by
    rw [matchSegments?_slash parsed start] at matched
    cases matched
  cases lead with
  | cons c lead =>
      by_cases same : c = '/'
      · left
        rw [whole, same]
        exact ⟨_, rfl⟩
      · exact (refused segmentsRead (.inl ⟨c, rfl, same⟩)).elim
  | nil =>
      rcases byOpening rfl with brace | capture | ⟨star, _⟩
      · exact (refused segmentsRead (.inl ⟨'{', brace, by decide⟩)).elim
      · exact (refused segmentsRead (.inr capture)).elim
      · right
        rw [whole, star]
        exact ⟨plain, rfl⟩

theorem exists_withheld_slash {chars : List Char} {routes : RouteSet Unit}
    (names : ∃ segment ∈ Text.segments chars, namesParameter segment = true)
    (inserted : RouteSet.insert [] (.ofList (patternText chars)) () = .ok routes)
    (slash : ['/'] <+: chars) :
    ∃ path : String, ['/'] <+: path.toList ∧ (routes.find? path).isSome = true ∧
      ¬chars <+: path.toList := by
  rw [insert_nil_iff, String.toList_ofList] at inserted
  obtain ⟨read, segments, atomsRead, segmentsRead, rfl⟩ := inserted
  have answered := find?_fill segmentsRead ()
  obtain ⟨lead, first, plain, opening, others, rfl, rfl, noColon, _⟩ :=
    atoms_of_namesParameter names atomsRead
  have filled : fill (lead.map Atom.char ++ opening :: others) =
      lead ++ sample opening :: fill others := by
    rw [fill, List.map_append, ← fill, fill_map_char]
    rfl
  refine ⟨.ofList (fill (lead.map Atom.char ++ opening :: others)), ?_, answered, ?_⟩
  · rw [String.toList_ofList, filled]
    cases lead with
    | nil =>
        obtain ⟨tail, impossible⟩ := slash
        cases impossible
    | cons c lead =>
        obtain ⟨tail, same⟩ := slash
        rw [List.cons_append, ← (List.cons.inj same).1]
        exact ⟨_, rfl⟩
  · -- Behind the common lead the path has a filled parameter, and the pathname a colon.
    rw [String.toList_ofList, filled, List.prefix_append_right_inj, List.cons_prefix_cons]
    intro below
    exact noColon below.1.symm

theorem exists_withheld_rest {chars : List Char} {routes : RouteSet Unit}
    (inserted : RouteSet.insert [] (.ofList (patternText chars)) () = .ok routes)
    (rest : [':', '*'] <+: chars) :
    ∃ path : String, ['/'] <+: path.toList ∧ (routes.find? path).isSome = true ∧
      ¬chars <+: path.toList := by
  rw [insert_nil_iff, String.toList_ofList] at inserted
  obtain ⟨read, segments, atomsRead, segmentsRead, rfl⟩ := inserted
  obtain ⟨plain, rfl⟩ := rest
  have text : ∃ behind, patternText ([':', '*'] ++ plain) = '{' :: '*' :: behind := by
    obtain ⟨name, others, parts⟩ := List.exists_cons_of_ne_nil (Text.segments_ne_nil plain)
    have split : Text.segments ([':', '*'] ++ plain) = (':' :: '*' :: name) :: others := by
      rw [List.cons_append, List.cons_append, List.nil_append, Text.segments_cons,
        Text.segments_cons, parts]
      rfl
    obtain ⟨behind, joined⟩ := Text.join_cons ['/'] (segmentText (':' :: '*' :: name))
      (others.map segmentText)
    exact ⟨name ++ ['}'] ++ behind, by rw [patternText, split, List.map_cons, joined]; rfl⟩
  obtain ⟨behind, opened⟩ := text
  rw [opened] at atomsRead
  obtain ⟨name, others, rfl⟩ := atoms_opening atomsRead
  obtain rfl := readSegments_rest segmentsRead
  refine ⟨"/x", ⟨['x'], rfl⟩, ?_, ?_⟩
  · rw [find?_alone_isSome]
    exact ⟨rfl, rfl⟩
  · intro below
    obtain ⟨tail, impossible⟩ := below
    cases impossible

/-! ### The two kinds of pathnames -/

theorem withheld_iff (pathname : String) :
    withheld pathname = true ↔ pathname.toList.getLast? ≠ some '*' ∧
      ((∃ segment ∈ Text.segments pathname.toList, namesParameter segment = true) ∧
        (∃ routes, RouteSet.insert [] (.ofList (patternText pathname.toList)) () = .ok routes) ∧
          (['/'] <+: pathname.toList ∨ [':', '*'] <+: pathname.toList) ∨
        (∀ segment ∈ Text.segments pathname.toList, isMarked segment = false) ∧
          ['/'] <+: pathname.toList ∧ ['/', '/'] <:+ pathname.toList) := by
  unfold withheld
  dsimp only
  rw [decide_eq_true_iff, isOk_iff_exists]
  by_cases names : (Text.segments pathname.toList).any namesParameter = true
  · have some := List.any_eq_true.mp names
    have marked : ¬∀ segment ∈ Text.segments pathname.toList, isMarked segment = false := by
      intro unmarked
      obtain ⟨segment, member, named⟩ := some
      rw [namesParameter_of_isMarked (unmarked segment member)] at named
      cases named
    simp only [if_pos names, some, marked, true_and, false_and, or_false]
  · have none : ¬∃ segment ∈ Text.segments pathname.toList, namesParameter segment = true := by
      rwa [List.any_eq_true] at names
    simp only [if_neg names, none, false_and, false_or, List.any_eq_false, Bool.not_eq_true]

theorem starts_of_not_withheld {pathname path : String} (kept : withheld pathname = false)
    (slash : ['/'] <+: path.toList) {pattern : Pattern}
    (member : pattern ∈ Pattern.ofPathname pathname) (answers : pattern.Answers path) :
    locationChars pathname.toList <+: path.toList := by
  rcases Pattern.kinds pathname with root | ⟨beginning, nonempty, ends⟩ | proper
  · rw [locationChars_root root]
    exact slash
  · rw [Pattern.ofPathname_star nonempty ends, List.mem_singleton] at member
    subst member
    rw [locationChars_star nonempty ends]
    rw [Pattern.Answers, Text.startsWith_iff, String.toList_ofList] at answers
    exact answers
  · rw [locationChars_proper proper]
    rw [Pattern.ofPathname_proper proper] at member
    have notKept := mt (withheld_iff pathname).mpr (Bool.not_eq_true _ |>.mpr kept)
    by_cases names : ∃ segment ∈ Text.segments pathname.toList, namesParameter segment = true
    · rw [if_pos (any_isMarked_of_names names), List.mem_singleton] at member
      subst member
      have begins := starts_of_answers names answers slash
      obtain ⟨routes, inserted, _⟩ := answers
      exact absurd ⟨proper.noStar, .inl ⟨names, ⟨routes, inserted⟩, begins⟩⟩ notKept
    · have plain : ∀ segment ∈ Text.segments pathname.toList, namesParameter segment = false := by
        intro segment given
        exact Bool.eq_false_iff.mpr fun named => names ⟨segment, given, named⟩
      have exactly (own : (Pattern.exact (.ofList (patternText pathname.toList))).Answers path) :
          pathname.toList <+: path.toList := by
        rw [(answers_exact_literal plain path).mp own]
      split at member
      · rw [List.mem_singleton] at member
        subst member
        exact exactly answers
      · rename_i unmarked
        rw [List.mem_cons, List.mem_singleton] at member
        rcases member with rfl | rfl
        · exact exactly answers
        · rw [Pattern.Answers, Text.startsWith_iff, String.toList_ofList] at answers
          rw [any_isMarked_iff, not_not] at unmarked
          refine Text.prefix_of_below proper.nonempty slash answers ?_
          intro several
          exact notKept ⟨proper.noStar, .inr ⟨unmarked, several⟩⟩

theorem exists_of_withheld {pathname : String} (kept : withheld pathname = true) :
    ∃ path : String, ['/'] <+: path.toList ∧
      (∃ pattern ∈ Pattern.ofPathname pathname, pattern.Answers path) ∧
        ¬locationChars pathname.toList <+: path.toList := by
  obtain ⟨noStar, kind⟩ := (withheld_iff pathname).mp kept
  have proper : Pattern.Proper pathname := by
    refine ⟨?_, ?_, noStar⟩
    · intro empty
      obtain rfl := String.toList_eq_nil_iff.mp empty
      exact absurd kept (by decide)
    · intro slash
      obtain rfl : pathname = "/" := String.toList_inj.mp slash
      exact absurd kept (by decide)
  rw [locationChars_proper proper, Pattern.ofPathname_proper proper]
  rcases kind with ⟨names, ⟨routes, inserted⟩, begins⟩ | ⟨unmarked, begins, double⟩
  · rw [if_pos (any_isMarked_of_names names)]
    have found : ∃ path : String, ['/'] <+: path.toList ∧ (routes.find? path).isSome = true ∧
        ¬pathname.toList <+: path.toList := by
      rcases begins with slash | rest
      · exact exists_withheld_slash names inserted slash
      · exact exists_withheld_rest inserted rest
    obtain ⟨path, slash, answered, outside⟩ := found
    exact ⟨path, slash, ⟨_, List.mem_singleton_self _, routes, inserted, answered⟩, outside⟩
  · rw [if_neg (mt (any_isMarked_iff _).mp (not_not.mpr unmarked))]
    refine ⟨.ofList (Text.stripEnd '/' pathname.toList ++ ['/']), ?_,
      ⟨_, List.mem_cons_of_mem _ (List.mem_singleton_self _), ?_⟩, ?_⟩
    · rw [String.toList_ofList, Text.slash_prefix_stripEnd proper.nonempty]
      exact begins
    · rw [Pattern.Answers, Text.startsWith_iff]
    · intro below
      have longer := Text.length_stripEnd_slash double
      have short := below.length_le
      rw [String.toList_ofList] at short
      omega

end VirtualHosts.Dispatch
