/-
What becomes of a request: found, refused for its method, or not found.

A registration is asked if the path is below one of its beginnings, or if its exact route is
the foremost one for the path.  The outcome hangs on the registrations that are asked, and
not on all whose patterns match: an exact route that another one precedes is not asked, not
even where the other does not allow the method.
-/

import VirtualHosts.Proofs.Dispatch.Isolation
import VirtualHosts.Proofs.Dispatch.Locations
import VirtualHosts.Proofs.Dispatch.PlainNames

namespace VirtualHosts.Dispatch

variable {α : Type}

def HasRoute (registration : Registration α) (segments : List Segment) : Prop :=
  ∃ text, .exact text ∈ Pattern.ofPathname registration.pathname ∧ routeOf? text = some segments

def Matches (path : String) (registration : Registration α) : Prop :=
  ∃ pattern ∈ Pattern.ofPathname registration.pathname, pattern.Answers path

inductive Asked (registrations : List (Registration α)) (path : String)
    (registration : Registration α) : Prop
  | below {beginning : String}
      (pattern : .below beginning ∈ Pattern.ofPathname registration.pathname)
      (starts : Text.startsWith path beginning = true) : Asked registrations path registration
  | exact {segments : List Segment} (route : HasRoute registration segments)
      (foremost : Foremost (HostTable.routes registrations) (Text.segments path.toList) segments) :
      Asked registrations path registration

/-- Whether the exact route of one registration precedes that of another. -/
def Shadows (registration other : Registration α) : Prop :=
  ∃ segments otherSegments, HasRoute registration segments ∧ HasRoute other otherSegments ∧
    Precedes segments otherSegments

/-- Whether the exact route of the other registration is given up for that of this one. -/
def Ousts (path : String) (registration other : Registration α) : Prop :=
  ∃ segments otherSegments, HasRoute registration segments ∧ HasRoute other otherSegments ∧
    GivenUp (Text.segments path.toList) otherSegments segments

/-! ### A pattern by itself -/

theorem answers_exact_iff (text path : String) :
    (Pattern.exact text).Answers path ↔
      ∃ segments, routeOf? text = some segments ∧ Fits (Text.segments path.toList) segments := by
  constructor
  · rintro ⟨routes, held, found⟩
    obtain ⟨segments, read, rfl⟩ := insert_nil_eq_ok_iff.mp held
    exact ⟨segments, read, ((find?_alone_isSome segments () path).mp found).2⟩
  · rintro ⟨segments, read, fits⟩
    refine ⟨_, insert_nil_eq_ok_iff.mpr ⟨segments, read, rfl⟩, ?_⟩
    have foremost := find?_foremost (consistent_alone read ()) path
    cases found : RouteSet.find? [(⟨segments, ()⟩ : ExactRoute Unit)] path with
    | some result => rfl
    | none =>
        rw [found] at foremost
        refine absurd ⟨fits, ?_⟩ (foremost segments List.mem_cons_self)
        intro other only
        rw [List.mem_singleton.mp only]
        exact GivenUp.irrefl

theorem matches_iff (path : String) (registration : Registration α) :
    Matches path registration ↔
      (∃ beginning, .below beginning ∈ Pattern.ofPathname registration.pathname ∧
        Text.startsWith path beginning = true) ∨
      ∃ segments, HasRoute registration segments ∧ Fits (Text.segments path.toList) segments := by
  constructor
  · rintro ⟨pattern, member, answers⟩
    cases pattern with
    | below beginning => exact .inl ⟨beginning, member, answers⟩
    | exact text =>
        obtain ⟨segments, read, fits⟩ := (answers_exact_iff text path).mp answers
        exact .inr ⟨segments, ⟨text, member, read⟩, fits⟩
  · rintro (⟨beginning, member, starts⟩ | ⟨segments, ⟨text, member, read⟩, fits⟩)
    · exact ⟨_, member, starts⟩
    · exact ⟨_, member, (answers_exact_iff text path).mpr ⟨segments, read, fits⟩⟩

namespace HostTable

/-! ### The outcome, by groups -/

/-- Whether the table has a group for a path, exact or below a beginning. -/
def Met (table : HostTable α) (path : String) : Prop :=
  (∃ found, table.exact.find? path = some found) ∨ ∃ group, group ∈ table.belowOf path

def Answered (table : HostTable α) (method path : String) : Prop :=
  (∃ found, table.exact.find? path = some found ∧
    (Group.answer? found.1.value method).isSome = true) ∨
      ∃ group ∈ table.belowOf path, (Group.answer? group method).isSome = true

theorem Answered.met {table : HostTable α} {method path : String}
    (answered : Answered table method path) : Met table path :=
  answered.imp (fun ⟨found, exact, _⟩ => ⟨found, exact⟩) fun ⟨group, member, _⟩ => ⟨group, member⟩

theorem lookup_outcome (table : HostTable α) (method path : String) :
    (Answered table method path ∧ ∃ chain params, table.lookup method path = .found chain params) ∨
      (¬Answered table method path ∧ Met table path ∧
        table.lookup method path = .methodNotAllowed) ∨
      (¬Met table path ∧ table.lookup method path = .notFound) := by
  by_cases own : ∃ found, table.exact.find? path = some found ∧
      (Group.answer? found.1.value method).isSome = true
  · obtain ⟨found, exact, allows⟩ := own
    obtain ⟨answer, given⟩ := Option.isSome_iff_exists.mp allows
    refine .inl ⟨.inl ⟨found, exact, allows⟩, answer.chain, paramsOf found.2, ?_⟩
    simp [lookup, exact, given]
  · have passed (found : ExactRoute (Group α) × List (String × String))
        (exact : table.exact.find? path = some found) :
        Group.answer? found.1.value method = none := by
      rw [← Option.not_isSome_iff_eq_none]
      exact fun allows => own ⟨found, exact, allows⟩
    cases below : (table.belowOf path).findSome? (Group.answer? · method) with
    | some answer =>
        obtain ⟨group, member, given⟩ := List.exists_of_findSome?_eq_some below
        refine .inl ⟨.inr ⟨group, member, by rw [given]; rfl⟩, answer.chain, [], ?_⟩
        cases exact : table.exact.find? path with
        | none => simp [lookup, exact, below]
        | some found => simp [lookup, exact, passed found exact, below]
    | none =>
        have unanswered : ¬Answered table method path := by
          rintro (exact | ⟨group, member, allows⟩)
          · exact own exact
          · rw [List.findSome?_eq_none_iff.mp below group member] at allows
            cases allows
        refine .inr ?_
        cases exact : table.exact.find? path with
        | some found =>
            refine .inl ⟨unanswered, .inl ⟨found, exact⟩, ?_⟩
            simp [lookup, exact, passed found exact, below]
        | none =>
            by_cases empty : table.belowOf path = []
            · refine .inr ⟨?_, by simp [lookup, exact, empty]⟩
              simp [Met, exact, empty]
            · refine .inl ⟨unanswered, .inr (List.exists_mem_of_ne_nil _ empty), ?_⟩
              simp [lookup, exact, below, empty]

theorem lookup_found_iff (table : HostTable α) (method path : String) :
    (∃ chain params, table.lookup method path = .found chain params) ↔
      Answered table method path := by
  rcases lookup_outcome table method path with
    ⟨answered, given⟩ | ⟨unanswered, _, given⟩ | ⟨unmet, given⟩
  · exact iff_of_true given answered
  · simp [given, unanswered]
  · simp [given, mt Answered.met unmet]

theorem lookup_methodNotAllowed_iff (table : HostTable α) (method path : String) :
    table.lookup method path = .methodNotAllowed ↔
      Met table path ∧ ¬Answered table method path := by
  rcases lookup_outcome table method path with
    ⟨answered, chain, params, given⟩ | ⟨unanswered, met, given⟩ | ⟨unmet, given⟩
  · simp [given, answered]
  · exact iff_of_true given ⟨met, unanswered⟩
  · simp [given, unmet]

theorem lookup_notFound_iff (table : HostTable α) (method path : String) :
    table.lookup method path = .notFound ↔ ¬Met table path := by
  rcases lookup_outcome table method path with
    ⟨answered, chain, params, given⟩ | ⟨_, met, given⟩ | ⟨unmet, given⟩
  · simp [given, answered.met]
  · simp [given, met]
  · exact iff_of_true given unmet

theorem answer?_groupOf_isSome {registrations : List (Registration α)} {pattern : Pattern}
    {method : String} :
    (Group.answer? (groupOf registrations pattern) method).isSome = true ↔
      ∃ registration ∈ registrations, pattern ∈ Pattern.ofPathname registration.pathname ∧
        registration.verbs.allows method = true := by
  rw [answer?_groupOf, Option.isSome_map, List.find?_isSome]
  simp only [decide_eq_true_eq]

/-! ### The groups of a path -/

section Asked

variable {hostname : String} {port : UInt16} {registrations : List (Registration α)}
  {table : HostTable α}

theorem mem_belowOf (built : build hostname port registrations = .ok table) {path : String}
    {group : Group α} :
    group ∈ table.belowOf path ↔
      ∃ beginning, .below beginning ∈ patterns registrations ∧
        Text.startsWith path beginning = true ∧
          group = groupOf registrations (.below beginning) := by
  rw [belowOf, (build_eq_ok built).2, List.mem_map]
  constructor
  · rintro ⟨⟨beginning, group⟩, member, rfl⟩
    obtain ⟨listed, starts⟩ := List.mem_filter.mp member
    obtain ⟨known, same⟩ := mem_sortBelow.mp listed
    exact ⟨beginning, known, starts, same⟩
  · rintro ⟨beginning, known, starts, rfl⟩
    exact ⟨_, List.mem_filter.mpr ⟨mem_sortBelow.mpr ⟨known, rfl⟩, starts⟩, rfl⟩

theorem find?_eq_some {path : String} (built : build hostname port registrations = .ok table)
    {route : ExactRoute (Group α)} {captured : List (String × String)}
    (found : table.exact.find? path = some (route, captured)) :
    ∃ text, .exact text ∈ patterns registrations ∧ routeOf? text = some route.segments ∧
      route.value = groupOf registrations (.exact text) ∧
        Foremost (routes registrations) (Text.segments path.toList) route.segments := by
  have foremost := find?_foremost (consistent_of_build built) path
  rw [found, map_segments_of_build built] at foremost
  obtain ⟨text, known, read, grouped⟩ := (mem_exact_of_build built).mp foremost.1
  exact ⟨text, known, read, grouped, foremost.2⟩

theorem mem_routes {registration : Registration α} (member : registration ∈ registrations)
    {segments : List Segment} (route : HasRoute registration segments) :
    segments ∈ routes registrations := by
  obtain ⟨text, pattern, read⟩ := route
  exact List.mem_filterMap.mpr
    ⟨.exact text, List.mem_eraseDups.mpr (mem_patterns.mpr ⟨registration, member, pattern⟩), read⟩

theorem exists_of_mem_routes {segments : List Segment} (known : segments ∈ routes registrations) :
    ∃ registration ∈ registrations, HasRoute registration segments := by
  obtain ⟨pattern, member, read⟩ := List.mem_filterMap.mp known
  obtain ⟨registration, owner, own⟩ := mem_patterns.mp (List.mem_eraseDups.mp member)
  cases pattern with
  | below beginning => cases read
  | exact text => exact ⟨registration, owner, text, own, read⟩

theorem find?_isSome_of_kept {path : String}
    (built : build hostname port registrations = .ok table) {segments : List Segment}
    (known : segments ∈ routes registrations)
    (kept : Kept (routes registrations) (Text.segments path.toList) segments) :
    ∃ found, table.exact.find? path = some found := by
  have foremost := find?_foremost (consistent_of_build built) path
  rw [map_segments_of_build built] at foremost
  cases found : table.exact.find? path with
  | some result => exact ⟨result, rfl⟩
  | none =>
      rw [found] at foremost
      exact absurd kept (foremost segments known)

/-- What is found for a path precedes all other routes that are kept for it. -/
theorem eq_or_precedes_of_find? {path : String}
    (built : build hostname port registrations = .ok table)
    {route : ExactRoute (Group α)} {captured : List (String × String)}
    (found : table.exact.find? path = some (route, captured))
    {registration : Registration α} (member : registration ∈ registrations) {text : String}
    (pattern : .exact text ∈ Pattern.ofPathname registration.pathname) {segments : List Segment}
    (read : routeOf? text = some segments)
    (kept : Kept (routes registrations) (Text.segments path.toList) segments) :
    route = ⟨segments, groupOf registrations (.exact text)⟩ ∨ Precedes route.segments segments := by
  have held := consistent_of_build built
  have foremost := find?_foremost held path
  rw [found] at foremost
  have known := mem_patterns.mpr ⟨registration, member, pattern⟩
  have other : (⟨segments, groupOf registrations (.exact text)⟩ : ExactRoute (Group α)) ∈
      table.exact := (mem_exact_of_build built).mpr ⟨text, known, read, rfl⟩
  rw [← map_segments_of_build built] at kept
  exact foremost.2.eq_or_precedes held foremost.1 other kept

theorem find?_of_foremost {path : String}
    (built : build hostname port registrations = .ok table)
    {registration : Registration α} (member : registration ∈ registrations) {text : String}
    (pattern : .exact text ∈ Pattern.ofPathname registration.pathname) {segments : List Segment}
    (read : routeOf? text = some segments)
    (foremost : Foremost (routes registrations) (Text.segments path.toList) segments) :
    ∃ captured, table.exact.find? path =
      some (⟨segments, groupOf registrations (.exact text)⟩, captured) := by
  have known := mem_routes member ⟨text, pattern, read⟩
  obtain ⟨⟨route, captured⟩, found⟩ := find?_isSome_of_kept built known foremost.toKept
  refine ⟨captured, ?_⟩
  rcases eq_or_precedes_of_find? built found member pattern read foremost.toKept with rfl | before
  · exact found
  · obtain ⟨_, otherKnown, otherRead, _, other⟩ := find?_eq_some built found
    obtain ⟨owner, ownerMember, ownerPattern⟩ := mem_patterns.mp otherKnown
    have otherRoute := mem_routes ownerMember ⟨_, ownerPattern, otherRead⟩
    exact absurd before (foremost.first _ otherRoute other.toKept)

/-! ### The outcome, by registrations -/

theorem met_iff (built : build hostname port registrations = .ok table) (path : String) :
    Met table path ↔ ∃ registration ∈ registrations, Asked registrations path registration := by
  constructor
  · rintro (⟨⟨route, captured⟩, found⟩ | ⟨group, member⟩)
    · obtain ⟨text, known, read, _, foremost⟩ := find?_eq_some built found
      obtain ⟨registration, member, pattern⟩ := mem_patterns.mp known
      exact ⟨registration, member, .exact ⟨text, pattern, read⟩ foremost⟩
    · obtain ⟨beginning, known, starts, _⟩ := (mem_belowOf built).mp member
      obtain ⟨registration, member, pattern⟩ := mem_patterns.mp known
      exact ⟨registration, member, .below pattern starts⟩
  · rintro ⟨registration, member, ⟨pattern, starts⟩ | ⟨⟨text, pattern, read⟩, foremost⟩⟩
    · have known := mem_patterns.mpr ⟨registration, member, pattern⟩
      exact .inr ⟨_, (mem_belowOf built).mpr ⟨_, known, starts, rfl⟩⟩
    · obtain ⟨captured, found⟩ := find?_of_foremost built member pattern read foremost
      exact .inl ⟨_, found⟩

theorem answered_iff (built : build hostname port registrations = .ok table)
    (method path : String) :
    Answered table method path ↔ ∃ registration ∈ registrations,
      Asked registrations path registration ∧ registration.verbs.allows method = true := by
  constructor
  · rintro (⟨⟨route, captured⟩, found, allows⟩ | ⟨group, member, allows⟩)
    · obtain ⟨text, known, read, grouped, foremost⟩ := find?_eq_some built found
      rw [grouped] at allows
      obtain ⟨registration, member, pattern, own⟩ := answer?_groupOf_isSome.mp allows
      exact ⟨registration, member, .exact ⟨text, pattern, read⟩ foremost, own⟩
    · obtain ⟨beginning, known, starts, rfl⟩ := (mem_belowOf built).mp member
      obtain ⟨registration, member, pattern, own⟩ := answer?_groupOf_isSome.mp allows
      exact ⟨registration, member, .below pattern starts, own⟩
  · rintro ⟨registration, member, ⟨pattern, starts⟩ | ⟨⟨text, pattern, read⟩, foremost⟩, allows⟩
    · have known := mem_patterns.mpr ⟨registration, member, pattern⟩
      exact .inr ⟨_, (mem_belowOf built).mpr ⟨_, known, starts, rfl⟩,
        answer?_groupOf_isSome.mpr ⟨registration, member, pattern, allows⟩⟩
    · obtain ⟨captured, found⟩ := find?_of_foremost built member pattern read foremost
      exact .inl ⟨_, found, answer?_groupOf_isSome.mpr ⟨registration, member, pattern, allows⟩⟩

/-- A chain that is found is that of a registration that is asked. -/
theorem asked_of_found (built : build hostname port registrations = .ok table)
    {method path : String} {chain : List α} {params : List (String × String)}
    (found : table.lookup method path = .found chain params) :
    ∃ registration ∈ registrations, Asked registrations path registration ∧
      registration.verbs.allows method = true ∧ registration.chain = chain := by
  unfold lookup at found
  dsimp only at found
  split at found
  · rename_i outcome answered
    obtain ⟨⟨route, captured⟩, exact, allowed⟩ := Option.bind_eq_some_iff.mp answered
    obtain ⟨answer, given, rfl⟩ := Option.map_eq_some_iff.mp allowed
    obtain ⟨text, _, read, grouped, foremost⟩ := find?_eq_some built exact
    rw [grouped] at given
    obtain ⟨registration, member, pattern, allows, same⟩ := exists_of_answer? given
    cases found
    exact ⟨registration, member, .exact ⟨text, pattern, read⟩ foremost, allows, same⟩
  · split at found
    · rename_i answer below
      obtain ⟨group, member, given⟩ := List.exists_of_findSome?_eq_some below
      obtain ⟨beginning, _, starts, rfl⟩ := (mem_belowOf built).mp member
      obtain ⟨registration, member, pattern, allows, same⟩ := exists_of_answer? given
      cases found
      exact ⟨registration, member, .below pattern starts, allows, same⟩
    · split at found <;> cases found

/-- A registration that matches is asked, unless another one has the foremost route in its place
or demands more behind one of its parameters. -/
theorem asked_or_precedes (built : build hostname port registrations = .ok table) {path : String}
    {registration : Registration α} (member : registration ∈ registrations)
    (matched : Matches path registration) :
    Asked registrations path registration ∨ ∃ other ∈ registrations,
      Asked registrations path other ∧ Shadows other registration ∨
        Ousts path other registration := by
  rcases (matches_iff path registration).mp matched with
    ⟨beginning, pattern, starts⟩ | ⟨segments, route, fits⟩
  · exact .inl (.below pattern starts)
  · have known := mem_routes member route
    by_cases kept : Kept (routes registrations) (Text.segments path.toList) segments
    · obtain ⟨⟨first, captured⟩, found⟩ := find?_isSome_of_kept built known kept
      obtain ⟨firstText, firstKnown, firstRead, _, foremost⟩ := find?_eq_some built found
      obtain ⟨other, otherMember, otherPattern⟩ := mem_patterns.mp firstKnown
      obtain ⟨text, pattern, read⟩ := route
      rcases eq_or_precedes_of_find? built found member pattern read kept with rfl | before
      · exact .inl (.exact ⟨text, pattern, read⟩ foremost)
      · have otherRoute : HasRoute other first.segments := ⟨firstText, otherPattern, firstRead⟩
        exact .inr ⟨other, otherMember, .inl ⟨.exact otherRoute foremost,
          _, _, otherRoute, ⟨text, pattern, read⟩, before⟩⟩
    · obtain ⟨givenFor, otherKnown, given⟩ : ∃ other ∈ routes registrations,
          GivenUp (Text.segments path.toList) segments other := by
        by_contra never
        exact kept ⟨fits, fun other known given => never ⟨other, known, given⟩⟩
      obtain ⟨other, otherMember, otherRoute⟩ := exists_of_mem_routes otherKnown
      exact .inr ⟨other, otherMember, .inr ⟨_, _, otherRoute, route, given⟩⟩

end Asked

end HostTable

theorem Asked.matches {registrations : List (Registration α)} {path : String}
    {registration : Registration α} (asked : Asked registrations path registration) :
    Matches path registration := by
  rw [matches_iff]
  cases asked with
  | below pattern starts => exact .inl ⟨_, pattern, starts⟩
  | exact route foremost => exact .inr ⟨_, route, foremost.fits⟩

theorem not_ousts_of_plainNames {path : String} {registration other : Registration α}
    (plain : PlainNames registration.pathname.toList) : ¬Ousts path registration other := by
  rintro ⟨segments, otherSegments, ⟨text, pattern, read⟩, _, given⟩
  rw [Pattern.eq_patternText pattern] at read
  exact not_givenUp_of_plainNames plain read given

/-- A request is found if a registration that is asked allows its method, refused for its method
if some are asked and none allows it, and not found if none is asked.  What is asked matches.
What matches is asked, or another registration is asked whose exact route precedes its own, or
another one, with a brace in the name of a parameter, demands more text behind a parameter. -/
theorem Table.lookup_outcomes {registrations : List (Registration α)} {table : Table α}
    (built : build registrations = .ok table) (host : String) (port : Option UInt16)
    (method path : String) :
    let own := selected registrations host port
    ((∃ chain params, table.lookup host port method path = .found chain params) ↔
      ∃ registration ∈ own, Asked own path registration ∧
        registration.verbs.allows method = true) ∧
    (table.lookup host port method path = .methodNotAllowed ↔
      (∃ registration ∈ own, Asked own path registration) ∧
        ∀ registration ∈ own, Asked own path registration →
          registration.verbs.allows method = false) ∧
    (table.lookup host port method path = .notFound ↔
      ∀ registration ∈ own, ¬Asked own path registration) ∧
    (∀ registration ∈ own, Asked own path registration → Matches path registration) ∧
    ∀ registration ∈ own, Matches path registration →
      Asked own path registration ∨ ∃ other ∈ own,
        Asked own path other ∧ Shadows other registration ∨
          ¬PlainNames other.pathname.toList ∧ Ousts path other registration := by
  intro own
  obtain ⟨declared, served, made, answers⟩ := lookup_of_selected built host port
  have answered := HostTable.answered_iff made method path
  have met := HostTable.met_iff made path
  refine ⟨?_, ?_, ?_, fun _ _ => Asked.matches, ?_⟩
  · rw [answers, HostTable.lookup_found_iff, answered]
  · rw [answers, HostTable.lookup_methodNotAllowed_iff, met, answered]
    simp only [not_exists, not_and, Bool.not_eq_true, own]
  · rw [answers, HostTable.lookup_notFound_iff, met]
    simp only [not_exists, not_and, own]
  · intro registration member matched
    refine (HostTable.asked_or_precedes made member matched).imp_right ?_
    rintro ⟨other, otherMember, shadowed | ousted⟩
    · exact ⟨other, otherMember, .inl shadowed⟩
    · exact ⟨other, otherMember, .inr ⟨fun plain => not_ousts_of_plainNames plain ousted, ousted⟩⟩

def people : List (Registration Nat) :=
  [⟨"a.test", 80, "/users/me", .single .post, [1]⟩,
    ⟨"a.test", 80, "/users/:id", .single .get, [2]⟩]

theorem Table.lookup_outcomes_people :
    ∃ table, build people = .ok table ∧
      (∃ registration ∈ selected people "a.test" none,
        Asked (selected people "a.test" none) "/users/7" registration ∧
          registration.verbs.allows "GET" = true) ∧
      (∀ registration ∈ selected people "a.test" none,
        ¬Asked (selected people "a.test" none) "/users" registration) ∧
      ∃ other ∈ selected people "a.test" none,
        Asked (selected people "a.test" none) "/users/me" other ∧
          Shadows other ⟨"a.test", 80, "/users/:id", .single .get, [2]⟩ := by
  have succeeds : (build people).isOk = true := by decide +kernel
  obtain ⟨table, built⟩ := (isOk_iff_exists _).mp succeeds
  have lookups : ((build people).toOption.map fun table =>
      (table.lookup "a.test" none "GET" "/users/7", table.lookup "a.test" none "GET" "/users",
        table.lookup "a.test" none "GET" "/users/me")) =
      some (.found [2] [("id", "7")], .notFound, .methodNotAllowed) := by decide +kernel
  rw [built] at lookups
  obtain ⟨found, notFound, refused⟩ : _ ∧ _ ∧ _ := by
    simpa only [Prod.mk.injEq] using Option.some.inj lookups
  have outcomes := lookup_outcomes built "a.test" none "GET"
  refine ⟨table, built, (outcomes "/users/7").1.mp ⟨_, _, found⟩,
    (outcomes "/users").2.2.1.mp notFound, ?_⟩
  obtain ⟨_, unable⟩ := (outcomes "/users/me").2.1.mp refused
  have member : ⟨"a.test", 80, "/users/:id", .single .get, [2]⟩ ∈
      selected people "a.test" none := by
    decide +kernel
  have matched : Matches "/users/me" (⟨"a.test", 80, "/users/:id", .single .get, [2]⟩ :
      Registration Nat) := by
    refine ⟨.exact "/users/\x7bid\x7d", ?_, _, rfl, ?_⟩
    all_goals decide +kernel
  rcases (outcomes "/users/me").2.2.2.2 _ member matched with
    asked | ⟨other, otherMember, shadowed | ⟨braced, _⟩⟩
  · exact absurd (unable _ member asked) (by decide)
  · exact ⟨other, otherMember, shadowed⟩
  · have plain : ∀ other ∈ selected people "a.test" none, PlainNames other.pathname.toList := by
      decide +kernel
    exact absurd (plain other otherMember) braced

/-- A registration that matches and allows the method can be refused all the same. -/
theorem Table.lookup_shadowed :
    ∃ table, build people = .ok table ∧
      table.lookup "a.test" none "GET" "/users/me" = .methodNotAllowed ∧
        ∃ registration ∈ selected people "a.test" none,
          Matches "/users/me" registration ∧ registration.verbs.allows "GET" = true := by
  have succeeds : (build people).isOk = true := by decide +kernel
  obtain ⟨table, built⟩ := (isOk_iff_exists _).mp succeeds
  have refused : ((build people).toOption.map fun table =>
      table.lookup "a.test" none "GET" "/users/me") = some .methodNotAllowed := by decide +kernel
  rw [built] at refused
  refine ⟨table, built, Option.some.inj refused,
    ⟨"a.test", 80, "/users/:id", .single .get, [2]⟩, ?_,
    ⟨.exact "/users/\x7bid\x7d", ?_, _, rfl, ?_⟩, ?_⟩
  all_goals decide +kernel

end VirtualHosts.Dispatch
