/-
The routes of a set.

A route is in a set as its text is read, and every two routes of the set are apart: what is
inserted has no contender, at any place, and its shape is new.
-/

import VirtualHosts.Proofs.Dispatch.Groups
import VirtualHosts.Proofs.Dispatch.Specificity

namespace VirtualHosts.Dispatch

/-- The segments that a text is read as, if it can be read and its parameters stand where they
may. -/
def routeOf? (text : String) : Option (List Segment) :=
  match atoms mostCaptures .outside [] (pairBraces text.toList) with
  | .error _ => none
  | .ok found =>
      match readSegments (splitAtoms found) with
      | (segments, none) => some segments
      | (_, some _) => none

theorem routeOf?_eq_some_iff {text : String} {segments : List Segment} :
    routeOf? text = some segments ↔
      ∃ found, atoms mostCaptures .outside [] (pairBraces text.toList) = .ok found ∧
        readSegments (splitAtoms found) = (segments, none) := by
  unfold routeOf?
  cases atoms mostCaptures .outside [] (pairBraces text.toList) with
  | error failure => simp
  | ok found =>
      dsimp only
      cases parsed : readSegments (splitAtoms found) with
      | mk own misplaced => cases misplaced <;> simp [parsed]

/-! ### Where parameters stand -/

theorem slash_notMem_splitAtoms (found : List Atom) :
    ∀ piece ∈ splitAtoms found, Atom.char '/' ∉ piece := by
  induction found with
  | nil => simp [splitAtoms]
  | cons atom found ih =>
      rw [splitAtoms]
      by_cases slash : atom = .char '/'
      · rw [beq_iff_eq.mpr slash]
        intro piece member
        rcases List.mem_cons.mp member with rfl | later
        · exact List.not_mem_nil
        · exact ih piece later
      · rw [beq_eq_false_iff_ne.mpr slash]
        have different : Atom.char '/' ≠ atom := fun same => slash same.symm
        cases pieces : splitAtoms found with
        | nil => simp [different]
        | cons first others =>
            rw [pieces] at ih
            intro piece member
            rcases List.mem_cons.mp member with rfl | later
            · rw [List.mem_cons, not_or]
              exact ⟨different, ih first List.mem_cons_self⟩
            · exact ih piece (List.mem_cons_of_mem _ later)

theorem ofAtoms_rest {isLast : Bool} {piece : List Atom} {before name : List Char}
    (noSlash : Atom.char '/' ∉ piece)
    (read : Segment.ofAtoms isLast piece = (.rest before name, none)) :
    '/' ∉ before ∧ isLast = true := by
  have lead := ofAtoms_lead isLast piece
  rw [read] at lead
  constructor
  · intro slash
    refine noSlash ?_
    rw [spanLiteral_append piece, ← lead]
    exact List.mem_append_left _ (List.mem_map.mpr ⟨'/', slash, rfl⟩)
  · rcases ofAtoms_fill read with same | ⟨_, _, _, same, _⟩ | ⟨_, _, _, last, _⟩
    · cases same
    · cases same
    · exact last

theorem wellPlaced_of_readSegments {pieces : List (List Atom)} {segments : List Segment}
    (noSlash : ∀ piece ∈ pieces, Atom.char '/' ∉ piece)
    (read : readSegments pieces = (segments, none)) : WellPlaced segments := by
  induction pieces generalizing segments with
  | nil =>
      cases read
      trivial
  | cons piece pieces ih =>
      obtain ⟨segment, others, rfl, parsed, rest⟩ := readSegments_cons read
      have later := ih (fun piece member => noSlash piece (List.mem_cons_of_mem _ member)) rest
      cases segment with
      | literal text => exact later
      | capture before name after => exact later
      | rest before name =>
          obtain ⟨inFront, last⟩ := ofAtoms_rest (noSlash piece List.mem_cons_self) parsed
          rw [← readSegments_isEmpty rest] at last
          exact ⟨inFront, List.isEmpty_iff.mp last⟩

theorem wellPlaced_of_routeOf? {text : String} {segments : List Segment}
    (read : routeOf? text = some segments) : WellPlaced segments := by
  obtain ⟨found, _, parsed⟩ := routeOf?_eq_some_iff.mp read
  exact wellPlaced_of_readSegments (slash_notMem_splitAtoms found) parsed

/-! ### Insertion -/

section Reported

variable {γ : Type}

theorem mem_of_longestEnding? {branches : List Branch} {branch : Branch}
    (found : longestEnding? branches = some branch) : branch ∈ branches := by
  unfold longestEnding? at found
  obtain ⟨text, longest, rfl⟩ := Option.map_eq_some_iff.mp found
  refine (List.foldlRecOn (motive := fun known => ∀ text, known = some text →
    Branch.ending text ∈ branches) branches _ ?_ ?_) text longest
  · intro text impossible
    cases impossible
  · intro known kept branch member text
    cases branch with
    | byte value => exact kept text
    | parameter => exact kept text
    | ending own =>
        dsimp only
        split
        · intro same
          rwa [← Option.some.inj same]
        · exact kept text

theorem mem_of_busiest? {branches : List Branch} {branch : Branch}
    (found : busiest? branches = some branch) : branch ∈ branches := by
  unfold busiest? at found
  obtain ⟨⟨_, count⟩, leads, rfl⟩ := Option.map_eq_some_iff.mp found
  refine (List.foldlRecOn (motive := fun counted : List Branch × Option (Branch × Nat) =>
    ∀ leader, counted.2 = some leader → leader.1 ∈ branches) branches _ ?_ ?_) _ leads
  · intro leader impossible
    cases impossible
  · rintro ⟨seen, known⟩ kept branch member leader
    dsimp only
    split
    · intro same
      rwa [← Option.some.inj same]
    · exact kept leader

theorem mem_of_followed? {branches : List Branch} {branch : Branch}
    (found : followed? branches = some branch) : branch ∈ branches := by
  rw [followed?, Option.or_eq_some_iff, Option.or_eq_some_iff] at found
  rcases found with (ending | ⟨_, byte⟩) | ⟨_, first⟩
  · exact mem_of_longestEnding? ending
  · exact (List.mem_filter.mp (mem_of_busiest? byte)).1
  · exact List.mem_of_mem_head? first

/-- Some route is reached by following branches that the routes have. -/
theorem descend_isSome (fuel : Nat) {routes : List (List Branch × γ)} (some : routes ≠ []) :
    (descend fuel routes).isSome = true := by
  induction fuel generalizing routes with
  | zero =>
      rw [descend, Option.isSome_map, List.isSome_head?]
      simpa using some
  | succ fuel ih =>
      rw [descend]
      split
      · rw [Option.isSome_map, List.isSome_head?]
        simpa using some
      · rename_i branch followed
        apply ih
        obtain ⟨⟨remaining, route⟩, member, first⟩ :=
          List.mem_filterMap.mp (mem_of_followed? followed)
        obtain ⟨others, rfl⟩ := List.head?_eq_some_iff.mp first
        apply List.ne_nil_of_mem (a := (others, route))
        exact List.mem_filterMap.mpr ⟨_, member, by simp⟩

end Reported

variable {β : Type}

theorem reported?_eq_none_iff {routes : List (ExactRoute β)} :
    reported? routes = none ↔ routes = [] := by
  constructor
  · intro nothing
    by_contra nonempty
    have started : routes.map (fun route => (route.branches, route)) ≠ [] := by
      simpa using nonempty
    have reached := descend_isSome ((routes.map (·.branches.length)).foldl max 0) started
    unfold reported? at nothing
    dsimp only at nothing
    rw [nothing] at reached
    cases reached
  · rintro rfl
    exact reported?_nil

theorem contends_of_shape {segments : List Segment} {depth : Nat} {route : ExactRoute β}
    {own other : Segment} {before : List Char} (atOwn : segments[depth]? = some own)
    (atOther : route.segments[depth]? = some other)
    (shape : (segments.take depth).map Segment.anonymous =
      (route.segments.take depth).map Segment.anonymous)
    (ownBefore : own.before? = some before) (otherBefore : other.before? = some before) :
    ExactRoute.contends (segments.take (depth + 1)) route = (own.isRest || other.isRest) := by
  have inside : depth < segments.length := (List.getElem?_eq_some_iff.mp atOwn).1
  have length : (segments.take (depth + 1)).length - 1 = depth := by
    rw [List.length_take]
    omega
  have last : (segments.take (depth + 1)).getLast? = some own := by
    rw [List.getLast?_eq_getElem?, length, List.getElem?_take_of_lt (Nat.lt_succ_self depth), atOwn]
  have inFront : (segments.take (depth + 1)).take depth = segments.take depth := by
    rw [List.take_take, Nat.min_eq_left (Nat.le_succ depth)]
  unfold ExactRoute.contends ExactRoute.meets
  dsimp only
  rw [length, last, inFront, List.head?_drop, atOther]
  simp [ExactRoute.sameShape, shape, ownBefore, otherBefore]

theorem contends_of_contenders_eq_nil {routes : RouteSet β} {segments : List Segment}
    (alone : routes.contenders segments = []) {route : ExactRoute β} (member : route ∈ routes)
    {depth : Nat} (inside : depth < segments.length) :
    ExactRoute.contends (segments.take (depth + 1)) route = false := by
  unfold RouteSet.contenders at alone
  dsimp only at alone
  cases found : List.find? (!·.isEmpty) (((List.range segments.length).map fun depth =>
      segments.take (depth + 1)).map fun place => routes.filter (ExactRoute.contends place)) with
  | some contenders =>
      rw [found] at alone
      obtain rfl : contenders = [] := alone
      exact absurd (List.find?_some found) Bool.noConfusion
  | none =>
      have everywhere := List.find?_eq_none.mp found
      have empty := everywhere _ (List.mem_map.mpr ⟨_, List.mem_map.mpr
        ⟨depth, List.mem_range.mpr inside, rfl⟩, rfl⟩)
      rw [Bool.not_eq_true, Bool.not_eq_false', List.isEmpty_iff, List.filter_eq_nil_iff] at empty
      exact Bool.not_eq_true _ ▸ empty route member

theorem apart_of_contenders_eq_nil {routes : RouteSet β} {segments : List Segment}
    (alone : routes.contenders segments = [])
    (fresh : List.find? (ExactRoute.sameShape segments ·.segments) routes = none)
    {earlier : ExactRoute β} (member : earlier ∈ routes) : Apart earlier.segments segments := by
  refine Apart.symm ⟨?_, ?_⟩
  · intro same
    refine List.find?_eq_none.mp fresh earlier member ?_
    exact beq_iff_eq.mpr same
  · intro depth own other before atOwn atOther shape ownBefore otherBefore
    have inside : depth < segments.length := (List.getElem?_eq_some_iff.mp atOwn).1
    have uncontended := contends_of_contenders_eq_nil alone member inside
    rw [contends_of_shape atOwn atOther shape ownBefore otherBefore] at uncontended
    exact Bool.or_eq_false_iff.mp uncontended

theorem insert_eq_ok {routes result : RouteSet β} {text : String} {value : β}
    (inserted : routes.insert text value = .ok result) :
    ∃ segments, routeOf? text = some segments ∧ result = routes ++ [⟨segments, value⟩] ∧
      ∀ earlier ∈ routes, Apart earlier.segments segments := by
  unfold RouteSet.insert at inserted
  split at inserted
  · cases inserted
  · rename_i found read
    dsimp only at inserted
    split at inserted
    · cases inserted
    · cases inserted
    · cases inserted
    · rename_i uncontended placed fresh
      cases inserted
      refine ⟨_, routeOf?_eq_some_iff.mpr ⟨found, read, Prod.ext rfl placed⟩, rfl, ?_⟩
      intro earlier member
      exact apart_of_contenders_eq_nil (reported?_eq_none_iff.mp uncontended) fresh member

theorem insert_nil_eq_ok_iff {text : String} {value : β} {routes : RouteSet β} :
    RouteSet.insert [] text value = .ok routes ↔
      ∃ segments, routeOf? text = some segments ∧ routes = [⟨segments, value⟩] := by
  rw [insert_nil_iff]
  simp only [routeOf?_eq_some_iff]
  constructor
  · rintro ⟨found, segments, read, parsed, same⟩
    exact ⟨segments, ⟨found, read, parsed⟩, same⟩
  · rintro ⟨segments, ⟨found, read, parsed⟩, same⟩
    exact ⟨found, segments, read, parsed, same⟩

theorem consistent_alone {text : String} {segments : List Segment}
    (read : routeOf? text = some segments) (value : β) :
    Consistent ([(⟨segments, value⟩ : ExactRoute β)].map fun route => (route, route.segments)) := by
  constructor
  · intro candidate only
    rw [List.mem_singleton.mp only]
    exact wellPlaced_of_routeOf? read
  · intro candidate only other otherOnly
    rw [List.mem_singleton.mp only, List.mem_singleton.mp otherOnly]
    exact .inl rfl

/-! ### The routes of a table -/

def Pattern.route? : Pattern → Option (List Segment)
  | .exact text => routeOf? text
  | .below _ => none

namespace HostTable

variable {α : Type}

def routed? (entry : Pattern × Group α) : Option (ExactRoute (Group α)) :=
  entry.1.route?.map fun segments => ⟨segments, entry.2⟩

theorem insertExact_eq_ok {hostname : String} {port : UInt16}
    {exact result : RouteSet (Group α)} {entry : Pattern × Group α}
    (inserted : insertExact hostname port exact entry = .ok result) :
    result = exact ++ (routed? entry).toList ∧
      ∀ route ∈ routed? entry, ∀ earlier ∈ exact, Apart earlier.segments route.segments := by
  obtain ⟨pattern, group⟩ := entry
  cases pattern with
  | below beginning =>
      cases inserted
      simp [routed?, Pattern.route?]
  | exact text =>
      rw [insertExact, mapError_eq_ok_iff] at inserted
      obtain ⟨segments, read, rfl, apart⟩ := insert_eq_ok inserted
      simpa [routed?, Pattern.route?, read] using apart

theorem foldlM_insertExact_eq_ok {hostname : String} {port : UInt16}
    {entries : List (Pattern × Group α)} {exact : RouteSet (Group α)}
    (inserted : entries.foldlM (insertExact hostname port) [] = .ok exact) :
    exact = entries.filterMap routed? ∧
      exact.Pairwise fun earlier later => Apart earlier.segments later.segments := by
  refine foldlM_ok_induction (fun seen exact => exact = seen.filterMap routed? ∧
    exact.Pairwise fun earlier later => Apart earlier.segments later.segments) ?_ ?_ inserted
  · exact ⟨rfl, List.Pairwise.nil⟩
  · rintro seen entry before after ⟨same, apart⟩ stepped
    obtain ⟨rfl, new⟩ := insertExact_eq_ok stepped
    constructor
    · rw [same, List.filterMap_append, List.filterMap_cons, List.filterMap_nil]
      cases routed? entry <;> rfl
    · rw [List.pairwise_append]
      refine ⟨apart, ?_, ?_⟩
      · cases routed? entry with
        | none => exact List.Pairwise.nil
        | some route => exact List.pairwise_singleton _ _
      · intro earlier member later atEnd
        exact new later (Option.mem_toList.mp atEnd) earlier member

/-- The routes of the registrations, each once. -/
def routes (registrations : List (Registration α)) : List (List Segment) :=
  (patterns registrations).eraseDups.filterMap Pattern.route?

variable {hostname : String} {port : UInt16} {registrations : List (Registration α)}
  {table : HostTable α}

theorem exact_eq_of_build (built : build hostname port registrations = .ok table) :
    table.exact = (patterns registrations).eraseDups.filterMap fun pattern =>
      pattern.route?.map fun segments => ⟨segments, groupOf registrations pattern⟩ := by
  obtain ⟨same, _⟩ := foldlM_insertExact_eq_ok (build_eq_ok built).1
  rw [same, groups_eq, List.filterMap_map]
  rfl

theorem map_segments_of_build (built : build hostname port registrations = .ok table) :
    table.exact.map ExactRoute.segments = routes registrations := by
  rw [exact_eq_of_build built, List.map_filterMap, routes]
  congr 1
  funext pattern
  rw [Option.map_map]
  exact Option.map_id'

theorem mem_exact_of_build (built : build hostname port registrations = .ok table)
    {route : ExactRoute (Group α)} : route ∈ table.exact ↔
      ∃ text, .exact text ∈ patterns registrations ∧ routeOf? text = some route.segments ∧
        route.value = groupOf registrations (.exact text) := by
  rw [exact_eq_of_build built, List.mem_filterMap]
  constructor
  · rintro ⟨pattern, known, made⟩
    obtain ⟨segments, read, rfl⟩ := Option.map_eq_some_iff.mp made
    cases pattern with
    | below beginning => cases read
    | exact text => exact ⟨text, List.mem_eraseDups.mp known, read, rfl⟩
  · rintro ⟨text, known, read, grouped⟩
    refine ⟨.exact text, List.mem_eraseDups.mpr known, ?_⟩
    rw [Pattern.route?, read, ← grouped]
    rfl

theorem consistent_of_build (built : build hostname port registrations = .ok table) :
    Consistent (table.exact.map fun route => (route, route.segments)) := by
  obtain ⟨_, apart⟩ := foldlM_insertExact_eq_ok (build_eq_ok built).1
  have beside := List.Pairwise.forall_of_forall_of_flip
    (R := fun left right => left = right ∨ Apart left.segments right.segments)
    (fun _ _ => .inl rfl) (apart.imp .inr) (apart.imp fun apart => .inr apart.symm)
  constructor
  · intro candidate member
    obtain ⟨route, known, rfl⟩ := List.mem_map.mp member
    obtain ⟨text, _, read, _⟩ := (mem_exact_of_build built).mp known
    exact wellPlaced_of_routeOf? read
  · intro candidate member other otherMember
    obtain ⟨route, known, rfl⟩ := List.mem_map.mp member
    obtain ⟨otherRoute, otherKnown, rfl⟩ := List.mem_map.mp otherMember
    exact (beside known otherKnown).imp_left fun same => by rw [same]

end HostTable

/-! ### The route of a path -/

theorem routesOf_whole (routes : RouteSet β) :
    routesOf (routes.map fun route => (route, route.segments)) =
      routes.map ExactRoute.segments := by
  rw [routesOf, List.map_map]
  rfl

/-- A path is answered by the foremost of the routes, unless none is kept for it. -/
theorem find?_foremost {routes : RouteSet β}
    (held : Consistent (routes.map fun route => (route, route.segments))) (path : String) :
    match routes.find? path with
    | none => ∀ segments ∈ routes.map ExactRoute.segments,
        ¬Kept (routes.map ExactRoute.segments) (Text.segments path.toList) segments
    | some (route, _) => route ∈ routes ∧
        Foremost (routes.map ExactRoute.segments) (Text.segments path.toList) route.segments := by
  have chosen := search_chosen (Text.segments path.toList) _ held
  unfold RouteSet.find?
  dsimp only
  cases found : search (Text.segments path.toList)
      (routes.map fun route => (route, route.segments)) with
  | none =>
      rw [found] at chosen
      intro segments member
      obtain ⟨route, known, rfl⟩ := List.mem_map.mp member
      have refused := chosen (route, route.segments) (List.mem_map.mpr ⟨route, known, rfl⟩) trivial
      rwa [routesOf_whole] at refused
  | some route =>
      rw [found] at chosen
      obtain ⟨segments, member, _, kept, first⟩ := chosen
      obtain ⟨own, known, same⟩ := List.mem_map.mp member
      obtain ⟨rfl, rfl⟩ := Prod.mk.inj same
      rw [routesOf_whole] at kept first
      obtain ⟨captured, matched⟩ := Option.isSome_iff_exists.mp kept.fits
      dsimp only [Option.bind_eq_bind, Option.bind_some]
      rw [matched]
      refine ⟨known, kept, ?_⟩
      intro other otherMember otherKept
      obtain ⟨otherRoute, otherKnown, rfl⟩ := List.mem_map.mp otherMember
      exact first (otherRoute, otherRoute.segments) (List.mem_map.mpr ⟨otherRoute, otherKnown, rfl⟩)
        trivial otherKept

theorem Foremost.eq_or_precedes {routes : RouteSet β}
    (held : Consistent (routes.map fun route => (route, route.segments)))
    {texts : List (List Char)} {first other : ExactRoute β} (member : first ∈ routes)
    (otherMember : other ∈ routes)
    (foremost : Foremost (routes.map ExactRoute.segments) texts first.segments)
    (kept : Kept (routes.map ExactRoute.segments) texts other.segments) :
    first = other ∨ Precedes first.segments other.segments := by
  have candidate {route : ExactRoute β} (known : route ∈ routes) :
      (route, route.segments) ∈ routes.map fun route => (route, route.segments) :=
    List.mem_map.mpr ⟨route, known, rfl⟩
  have segments {route : ExactRoute β} (known : route ∈ routes) :
      route.segments ∈ routes.map ExactRoute.segments :=
    List.mem_map.mpr ⟨route, known, rfl⟩
  rcases held.apart _ (candidate member) _ (candidate otherMember) with same | apart
  · exact .inl (Prod.mk.inj same).1
  · have total := precedes_or_precedes apart (held.placed _ (candidate member))
      (held.placed _ (candidate otherMember)) foremost.fits kept.fits
      (foremost.never _ (segments otherMember)) (kept.never _ (segments member))
    exact .inr (total.resolve_right (foremost.first _ (segments otherMember) kept))

end VirtualHosts.Dispatch
