/-
Registrations that are in conflict.

Two pathnames of one host and port are in conflict if they differ in the names of parameters
only.  Where the names are words, and no pathname has more of them than a route may have, nothing
else is refused.
-/

import VirtualHosts.Dispatch
import VirtualHosts.Proofs.Dispatch.Captures

namespace VirtualHosts.Dispatch

/-! ### Pathnames without their names -/

/-- A segment with one name for all parameters in the place of its own. -/
def withoutName (segment : List Char) : List Char :=
  if namesParameter segment then ":name".toList else segment

/-- A pathname in which all parameters have one name. -/
def withoutNames (chars : List Char) : List Char :=
  Text.join ['/'] ((Text.segments chars).map withoutName)

theorem segments_withoutNames (chars : List Char) :
    Text.segments (withoutNames chars) = (Text.segments chars).map withoutName := by
  refine Text.segments_join_map fun segment known => ?_
  unfold withoutName
  split
  · decide
  · exact Text.slash_notMem_segments chars segment known

theorem namesParameter_withoutName (segment : List Char) :
    namesParameter (withoutName segment) = namesParameter segment := by
  unfold withoutName
  split
  · rename_i names
    rw [names]
    rfl
  · rfl

theorem parameterNames_withoutNames_eq_nil_iff (chars : List Char) :
    parameterNames (withoutNames chars) = [] ↔ parameterNames chars = [] := by
  simp [← not_iff_not, ← ne_eq, parameterNames_ne_nil_iff, segments_withoutNames,
    namesParameter_withoutName]

theorem withoutNames_of_nameless {chars : List Char} (nameless : parameterNames chars = []) :
    withoutNames chars = chars := by
  have plain : ∀ segment ∈ Text.segments chars, withoutName segment = segment := by
    intro segment member
    rw [withoutName, if_neg]
    intro names
    exact parameterNames_ne_nil_iff.mpr ⟨segment, member, names⟩ nameless
  rw [withoutNames, List.map_congr_left plain, List.map_id', Text.join_segments]

/-! ### Shapes -/

/-- The segment of a pathname, but for the name, that a shape is read from. -/
def sourceOf : Segment → List Char
  | .literal text => text
  | .capture _ _ _ | .rest _ _ => ":name".toList

theorem sourceOf_anonymous_segmentOf (segment : List Char) :
    sourceOf (segmentOf segment).anonymous = withoutName segment := by
  unfold segmentOf withoutName
  split
  · rfl
  · rfl
  · rename_i noStar noName
    rw [if_neg]
    · rfl
    · intro names
      obtain ⟨first, name, rfl⟩ := (namesParameter_iff segment).mp names
      exact noName first name rfl

theorem anonymous_segmentOf_withoutName {segment : List Char}
    (single : ∀ name, parameterName? segment = some name → name.head? ≠ some '*') :
    (segmentOf (withoutName segment)).anonymous = (segmentOf segment).anonymous := by
  cases names : namesParameter segment with
  | false => rw [withoutName, names, if_neg Bool.false_ne_true]
  | true =>
      obtain ⟨first, name, rfl⟩ := (namesParameter_iff segment).mp names
      rw [segmentOf_of_name fun star => single _ rfl (congrArg some star)]
      rfl

/-- Routes have one shape if their pathnames differ in names only. -/
theorem map_anonymous_eq_iff {left right : List Char}
    (single : ∀ name ∈ parameterNames left, name.head? ≠ some '*')
    (otherSingle : ∀ name ∈ parameterNames right, name.head? ≠ some '*') :
    ((Text.segments left).map segmentOf).map Segment.anonymous =
        ((Text.segments right).map segmentOf).map Segment.anonymous ↔
      withoutNames left = withoutNames right := by
  have shape {chars : List Char}
      (single : ∀ name ∈ parameterNames chars, name.head? ≠ some '*') :
      ((Text.segments chars).map segmentOf).map Segment.anonymous =
        ((Text.segments (withoutNames chars)).map segmentOf).map Segment.anonymous := by
    rw [segments_withoutNames, List.map_map, List.map_map, List.map_map]
    refine List.map_congr_left fun segment member =>
      (anonymous_segmentOf_withoutName fun name named => ?_).symm
    exact single name (List.mem_filterMap.mpr ⟨segment, member, named⟩)
  have text (chars : List Char) :
      (((Text.segments chars).map segmentOf).map Segment.anonymous).map sourceOf =
        Text.segments (withoutNames chars) := by
    rw [segments_withoutNames, List.map_map, List.map_map]
    exact List.map_congr_left fun segment _ => sourceOf_anonymous_segmentOf segment
  constructor
  · intro same
    refine Text.segments_injective ?_
    rw [← text left, ← text right, same]
  · intro same
    rw [shape single, shape otherSingle, same]

theorem segmentOf_injective {segment other : List Char}
    (same : segmentOf segment = segmentOf other) : segment = other := by
  unfold segmentOf at same
  split at same
  all_goals split at same
  all_goals cases same
  all_goals rfl

/-! ### Insertion where every parameter is for one segment -/

section Single

variable {β : Type}

theorem contends_of_single {place : List Segment} {route : ExactRoute β}
    (single : ∀ segment ∈ place, segment.isRest = false)
    (otherSingle : ∀ segment ∈ route.segments, segment.isRest = false) :
    ExactRoute.contends place route = false := by
  have own : place.getLast?.any Segment.isRest = false := by
    cases last : place.getLast? with
    | none => rfl
    | some segment => exact single segment (List.mem_of_getLast? last)
  have other : (route.segments[place.length - 1]?).any Segment.isRest = false := by
    cases there : route.segments[place.length - 1]? with
    | none => rfl
    | some segment => exact otherSingle segment (List.mem_of_getElem? there)
  rw [ExactRoute.contends, own, other, Bool.or_false, Bool.and_false]

/-- A route whose shape is new is inserted. -/
theorem insert_of_single {routes : RouteSet β} {text : String} {segments : List Segment}
    (read : routeOf? text = some segments)
    (single : ∀ segment ∈ segments, segment.isRest = false)
    (others : ∀ route ∈ routes, ∀ segment ∈ route.segments, segment.isRest = false)
    (fresh : ∀ route ∈ routes,
      route.segments.map Segment.anonymous ≠ segments.map Segment.anonymous) (value : β) :
    routes.insert text value = .ok (routes ++ [⟨segments, value⟩]) := by
  obtain ⟨found, atomsRead, parsed⟩ := routeOf?_eq_some_iff.mp read
  have alone : routes.contenders segments = [] :=
    contenders_eq_nil fun depth route known =>
      contends_of_single (fun segment inPlace => single segment (List.mem_of_mem_take inPlace))
        (others route known)
  have unknown : List.find? (ExactRoute.sameShape segments ·.segments) routes = none := by
    rw [List.find?_eq_none]
    intro route known same
    exact fresh route known (beq_iff_eq.mp same).symm
  rw [RouteSet.insert, atomsRead]
  simp only [parsed, alone, reported?_nil, unknown]

end Single

/-! ### The table of one host and port -/

variable {α : Type}

namespace HostTable

variable {hostname : String} {port : UInt16} {registrations : List (Registration α)}

/-- What is inserted in front of a pattern comes of other patterns. -/
theorem exists_of_front {before after : List (Pattern × Group α)} {pattern : Pattern}
    {group : Group α} (parts : groups registrations = before ++ (pattern, group) :: after)
    {route : ExactRoute (Group α)} (member : route ∈ before.filterMap routed?) :
    ∃ text, .exact text ≠ pattern ∧ .exact text ∈ patterns registrations ∧
      routeOf? text = some route.segments := by
  obtain ⟨⟨own, others⟩, inFront, routed⟩ := List.mem_filterMap.mp member
  obtain ⟨segments, read, rfl⟩ := Option.map_eq_some_iff.mp routed
  cases own with
  | below beginning => cases read
  | exact text =>
      have known : Pattern.exact text ∈ before.map Prod.fst :=
        List.mem_map.mpr ⟨_, inFront, rfl⟩
      have keys := map_fst_groups registrations
      rw [parts, List.map_append, List.map_cons] at keys
      have distinct := nodup_eraseDups (patterns registrations)
      rw [← keys] at distinct
      refine ⟨text, ?_, ?_, read⟩
      · exact (List.nodup_append.mp distinct).2.2 _ known _ List.mem_cons_self
      · rw [← List.mem_eraseDups, ← keys]
        exact List.mem_append_left _ known

/-- A table whose patterns are all read, as parameters for one segment each, is made if every
pattern has a shape of its own. -/
theorem build_of_shapes
    (reads : ∀ text, .exact text ∈ patterns registrations → ∃ segments,
      routeOf? text = some segments ∧ ∀ segment ∈ segments, segment.isRest = false)
    (apart : ∀ text other segments otherSegments, .exact text ∈ patterns registrations →
      .exact other ∈ patterns registrations → routeOf? text = some segments →
        routeOf? other = some otherSegments →
          segments.map Segment.anonymous = otherSegments.map Segment.anonymous → text = other) :
    ∃ table, build hostname port registrations = .ok table := by
  cases inserted : (groups registrations).foldlM (insertExact hostname port) [] with
  | ok exact =>
      refine ⟨⟨exact, sortBelow (groups registrations)⟩, ?_⟩
      rw [build, inserted]
      rfl
  | error failure =>
      obtain ⟨before, ⟨pattern, group⟩, after, exact, parts, ran, refused⟩ :=
        foldlM_error_iff.mp inserted
      obtain ⟨rfl, _⟩ := foldlM_insertExact_eq_ok ran
      cases pattern with
      | below beginning => cases refused
      | exact text =>
          have known : .exact text ∈ patterns registrations := by
            rw [← List.mem_eraseDups, ← map_fst_groups, parts, List.map_append, List.map_cons]
            exact List.mem_append_right _ List.mem_cons_self
          obtain ⟨segments, read, single⟩ := reads text known
          have others : ∀ route ∈ before.filterMap routed?, ∀ segment ∈ route.segments,
              segment.isRest = false := by
            intro route member
            obtain ⟨other, _, otherKnown, otherRead⟩ := exists_of_front parts member
            obtain ⟨otherSegments, same, otherSingle⟩ := reads other otherKnown
            rwa [Option.some.inj (otherRead.symm.trans same)]
          have fresh : ∀ route ∈ before.filterMap routed?,
              route.segments.map Segment.anonymous ≠ segments.map Segment.anonymous := by
            intro route member same
            obtain ⟨other, different, otherKnown, otherRead⟩ := exists_of_front parts member
            exact different (congrArg Pattern.exact
              (apart other text _ _ otherKnown known otherRead read same))
          rw [insertExact, insert_of_single read single others fresh] at refused
          cases refused

/-- Of the patterns of a table, no two have the same shape but different segments. -/
theorem segments_eq_of_shape {table : HostTable α}
    (built : build hostname port registrations = .ok table) {text other : String}
    (known : .exact text ∈ patterns registrations)
    (otherKnown : .exact other ∈ patterns registrations) {segments otherSegments : List Segment}
    (read : routeOf? text = some segments) (otherRead : routeOf? other = some otherSegments)
    (same : segments.map Segment.anonymous = otherSegments.map Segment.anonymous) :
    segments = otherSegments := by
  have candidate {text : String} {segments : List Segment}
      (known : .exact text ∈ patterns registrations) (read : routeOf? text = some segments) :
      (⟨segments, groupOf registrations (.exact text)⟩, segments) ∈
        table.exact.map fun route => (route, route.segments) :=
    List.mem_map.mpr ⟨_, (mem_exact_of_build built).mpr ⟨text, known, read, rfl⟩, rfl⟩
  rcases (consistent_of_build built).apart _ (candidate known read) _
    (candidate otherKnown otherRead) with equal | apart
  · exact (Prod.mk.inj equal).2
  · exact absurd same apart.shape

end HostTable

/-! ### Conflicts -/

/-- Whether two registrations of one host and port have pathnames with parameters that differ in
the names only. -/
structure Clash (left right : Registration α) : Prop where
  host : normalizeHost left.hostname = normalizeHost right.hostname
  port : left.port = right.port
  differ : left.pathname ≠ right.pathname
  noStar : left.pathname.toList.getLast? ≠ some '*'
  otherNoStar : right.pathname.toList.getLast? ≠ some '*'
  named : parameterNames left.pathname.toList ≠ []
  otherNamed : parameterNames right.pathname.toList ≠ []
  same : withoutNames left.pathname.toList = withoutNames right.pathname.toList

instance (left right : Registration α) : Decidable (Clash left right) :=
  decidable_of_iff (normalizeHost left.hostname = normalizeHost right.hostname ∧
      left.port = right.port ∧ left.pathname ≠ right.pathname ∧
      left.pathname.toList.getLast? ≠ some '*' ∧ right.pathname.toList.getLast? ≠ some '*' ∧
      parameterNames left.pathname.toList ≠ [] ∧ parameterNames right.pathname.toList ≠ [] ∧
      withoutNames left.pathname.toList = withoutNames right.pathname.toList)
    ⟨fun ⟨host, port, differ, noStar, otherNoStar, named, otherNamed, same⟩ =>
        ⟨host, port, differ, noStar, otherNoStar, named, otherNamed, same⟩,
      fun clash => ⟨clash.host, clash.port, clash.differ, clash.noStar, clash.otherNoStar,
        clash.named, clash.otherNamed, clash.same⟩⟩

/-- A pathname with words for names, and no more of them than a route may have.  Of one that ends
in a star nothing is asked. -/
structure Regular (pathname : String) : Prop where
  words : pathname.toList.getLast? ≠ some '*' → WordNames pathname.toList
  few : pathname.toList.getLast? ≠ some '*' →
    (parameterNames pathname.toList).length ≤ mostCaptures

instance (pathname : String) : Decidable (Regular pathname) :=
  decidable_of_iff ((pathname.toList.getLast? ≠ some '*' → WordNames pathname.toList) ∧
      (pathname.toList.getLast? ≠ some '*' →
        (parameterNames pathname.toList).length ≤ mostCaptures))
    ⟨fun ⟨words, few⟩ => ⟨words, few⟩, fun regular => ⟨regular.words, regular.few⟩⟩

theorem Regular.single {pathname : String} (regular : Regular pathname)
    (noStar : pathname.toList.getLast? ≠ some '*') :
    ∀ name ∈ parameterNames pathname.toList, name.head? ≠ some '*' := by
  intro name member star
  exact (regular.words noStar).starless name member (List.mem_of_mem_head? star)

theorem Regular.routeOf? {pathname text : String} (regular : Regular pathname)
    (pattern : .exact text ∈ Pattern.ofPathname pathname) :
    routeOf? text = some ((Text.segments pathname.toList).map segmentOf) := by
  have words := regular.words (Pattern.proper_of_exact pattern).noStar
  have few := regular.few (Pattern.proper_of_exact pattern).noStar
  rw [Pattern.eq_patternText pattern]
  exact routeOf?_of_starless words.legible words.starless few

namespace HostTable

variable {hostname : String} {port : UInt16} {registrations : List (Registration α)}

theorem build_of_clashless
    (regular : ∀ registration ∈ registrations, Regular registration.pathname)
    (clashless : ∀ left ∈ registrations, ∀ right ∈ registrations, ¬Clash left right)
    (together : ∀ left ∈ registrations, ∀ right ∈ registrations,
      normalizeHost left.hostname = normalizeHost right.hostname ∧ left.port = right.port) :
    ∃ table, build hostname port registrations = .ok table := by
  refine build_of_shapes ?_ ?_
  · intro text known
    obtain ⟨registration, member, pattern⟩ := mem_patterns.mp known
    have noStar := (Pattern.proper_of_exact pattern).noStar
    refine ⟨_, (regular registration member).routeOf? pattern, ?_⟩
    intro segment inRoute
    obtain ⟨part, inPathname, rfl⟩ := List.mem_map.mp inRoute
    refine isRest_segmentOf fun name named => (regular registration member).single noStar name ?_
    exact List.mem_filterMap.mpr ⟨part, inPathname, named⟩
  · intro text other segments otherSegments known otherKnown read otherRead shape
    obtain ⟨left, leftMember, pattern⟩ := mem_patterns.mp known
    obtain ⟨right, rightMember, otherPattern⟩ := mem_patterns.mp otherKnown
    have noStar := (Pattern.proper_of_exact pattern).noStar
    have otherNoStar := (Pattern.proper_of_exact otherPattern).noStar
    rw [(regular left leftMember).routeOf? pattern] at read
    rw [(regular right rightMember).routeOf? otherPattern] at otherRead
    cases read
    cases otherRead
    have same := (map_anonymous_eq_iff ((regular left leftMember).single noStar)
      ((regular right rightMember).single otherNoStar)).mp shape
    have alike : left.pathname = right.pathname := by
      by_contra differ
      have nameless := parameterNames_withoutNames_eq_nil_iff left.pathname.toList
      rw [same, parameterNames_withoutNames_eq_nil_iff] at nameless
      by_cases none : parameterNames left.pathname.toList = []
      · rw [withoutNames_of_nameless none, withoutNames_of_nameless (nameless.mpr none)] at same
        exact differ (String.toList_injective same)
      · obtain ⟨host, port⟩ := together left leftMember right rightMember
        exact clashless left leftMember right rightMember
          ⟨host, port, differ, noStar, otherNoStar, none, mt nameless.mp none, same⟩
    rw [Pattern.eq_patternText pattern, Pattern.eq_patternText otherPattern, alike]

theorem not_clash_of_build {table : HostTable α}
    (built : build hostname port registrations = .ok table) {left right : Registration α}
    (member : left ∈ registrations) (otherMember : right ∈ registrations)
    (regular : Regular left.pathname) (otherRegular : Regular right.pathname) :
    ¬Clash left right := by
  intro clash
  have pattern := Pattern.ofPathname_named clash.noStar clash.named
  have otherPattern := Pattern.ofPathname_named clash.otherNoStar clash.otherNamed
  have own : Pattern.exact _ ∈ Pattern.ofPathname left.pathname :=
    pattern ▸ List.mem_singleton_self _
  have other : Pattern.exact _ ∈ Pattern.ofPathname right.pathname :=
    otherPattern ▸ List.mem_singleton_self _
  have shape := (map_anonymous_eq_iff (regular.single clash.noStar)
    (otherRegular.single clash.otherNoStar)).mpr clash.same
  have segments := segments_eq_of_shape built (mem_patterns.mpr ⟨left, member, own⟩)
    (mem_patterns.mpr ⟨right, otherMember, other⟩) (regular.routeOf? own)
    (otherRegular.routeOf? other) shape
  have parts := List.map_injective_iff.mpr (fun _ _ same => segmentOf_injective same) segments
  exact clash.differ (String.toList_injective (Text.segments_injective parts))

end HostTable

namespace Table

variable {registrations : List (Registration α)}

theorem build_of_clashless
    (regular : ∀ registration ∈ registrations, Regular registration.pathname)
    (clashless : ∀ left ∈ registrations, ∀ right ∈ registrations, ¬Clash left right) :
    ∃ table, build registrations = .ok table := by
  refine build_ok_of_forall fun key => ?_
  have known {registration : Registration α}
      (member : registration ∈ registrations.filter (keyOf · = key)) :
      registration ∈ registrations ∧ keyOf registration = key := by
    simpa using member
  refine HostTable.build_of_clashless (fun registration member => regular _ (known member).1)
    (fun left member right otherMember => clashless _ (known member).1 _ (known otherMember).1) ?_
  intro left member right otherMember
  exact Prod.mk.inj ((known member).2.trans (known otherMember).2.symm)

theorem not_clash_of_build {table : Table α} (built : build registrations = .ok table)
    (regular : ∀ registration ∈ registrations, Regular registration.pathname)
    {left right : Registration α} (member : left ∈ registrations)
    (otherMember : right ∈ registrations) : ¬Clash left right := by
  intro clash
  obtain ⟨declared, served, made, _⟩ := lookup_of_selected built left.hostname (some left.port)
  rw [selected_some] at made
  have own : left ∈ registrations.filter fun registration =>
      normalizeHost registration.hostname = normalizeHost left.hostname ∧
        registration.port = left.port :=
    List.mem_filter.mpr ⟨member, decide_eq_true ⟨rfl, rfl⟩⟩
  have other : right ∈ registrations.filter fun registration =>
      normalizeHost registration.hostname = normalizeHost left.hostname ∧
        registration.port = left.port :=
    List.mem_filter.mpr ⟨otherMember, decide_eq_true ⟨clash.host.symm, clash.port.symm⟩⟩
  exact HostTable.not_clash_of_build made own other (regular left member)
    (regular right otherMember) clash

end Table

theorem check_eq_error_iff {registrations : List (Registration α)} :
    (∃ failure, backend.check registrations = .error failure) ↔
      ∃ failure, Table.build registrations = .error failure := by
  unfold backend
  dsimp only
  cases Table.build registrations <;> simp [Except.map]

/-- A table is refused, and with it the registrations of a server, if two of them clash, and for
nothing else: a pathname beside itself is no conflict, and neither is one on another host or
port. -/
theorem Table.build_refused_iff_clash {registrations : List (Registration α)}
    (regular : ∀ registration ∈ registrations, Regular registration.pathname) :
    ((∃ failure, build registrations = .error failure) ↔
      ∃ left ∈ registrations, ∃ right ∈ registrations, Clash left right) ∧
    ((∃ failure, backend.check registrations = .error failure) ↔
      ∃ left ∈ registrations, ∃ right ∈ registrations, Clash left right) ∧
    ((∀ left ∈ registrations, ∀ right ∈ registrations,
      normalizeHost left.hostname = normalizeHost right.hostname → left.port = right.port →
        left.pathname = right.pathname) → ∃ table, build registrations = .ok table) := by
  have refused : (∃ failure, build registrations = .error failure) ↔
      ∃ left ∈ registrations, ∃ right ∈ registrations, Clash left right := by
    constructor
    · rintro ⟨failure, failed⟩
      by_contra clashless
      obtain ⟨table, built⟩ := build_of_clashless regular fun left member right otherMember clash =>
        clashless ⟨left, member, right, otherMember, clash⟩
      rw [failed] at built
      cases built
    · rintro ⟨left, member, right, otherMember, clash⟩
      cases built : build registrations with
      | error failure => exact ⟨failure, rfl⟩
      | ok table => exact absurd clash (not_clash_of_build built regular member otherMember)
  refine ⟨refused, check_eq_error_iff.trans refused, fun alike => ?_⟩
  refine build_of_clashless regular fun left member right otherMember clash => ?_
  exact clash.differ (alike left member right otherMember clash.host clash.port)

def renamed : List (Registration Nat) :=
  [⟨"shop.test", 80, "/cart", .every, [1]⟩,
    ⟨"Shop.test", 80, "/cart/:id/items", .single .get, [2]⟩,
    ⟨"shop.test:80", 80, "/cart/:cart_id/items", .single .post, [3]⟩]

/-- The pathnames of one clash, but on another port, on another host, with the same name again,
with braces, and below a star. -/
def sideBySide : List (Registration Nat) :=
  [⟨"shop.test", 80, "/cart/:id", .single .get, [1]⟩,
    ⟨"shop.test", 8080, "/cart/:cart_id", .every, [2]⟩,
    ⟨"cart.test", 80, "/cart/:cart_id", .every, [3]⟩,
    ⟨"Shop.test", 80, "/cart/:id", .every, [4]⟩,
    ⟨"shop.test", 80, "/cart/{cart_id}", .every, [5]⟩,
    ⟨"shop.test", 80, "/cart/:cart_id*", .every, [6]⟩]

theorem Table.build_refused_iff_clash_shop :
    (∃ failure, backend.check renamed = .error failure) ∧
      ∃ table, build sideBySide = .ok table := by
  have clash : ∃ left ∈ renamed, ∃ right ∈ renamed, Clash left right := by decide +kernel
  have clashless : ¬∃ left ∈ sideBySide, ∃ right ∈ sideBySide, Clash left right := by
    decide +kernel
  have regular : ∀ registration ∈ renamed, Regular registration.pathname := by decide +kernel
  have alsoRegular : ∀ registration ∈ sideBySide, Regular registration.pathname := by
    decide +kernel
  refine ⟨(build_refused_iff_clash regular).2.1.mpr clash, ?_⟩
  cases built : build sideBySide with
  | ok table => exact ⟨table, rfl⟩
  | error failure =>
      exact absurd ((build_refused_iff_clash alsoRegular).1.mp ⟨failure, built⟩) clashless

end VirtualHosts.Dispatch
