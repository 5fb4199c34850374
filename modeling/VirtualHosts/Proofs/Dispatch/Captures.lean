/-
What is captured from a path.

A path is captured from by the route that answers it, and by no other.  Where the names of a
pathname are for one segment each, the path has the pathname's segments, but for those of the
parameters, and each name is bound to the text in its last place.
-/

import VirtualHosts.Proofs.Dispatch.Outcomes

namespace VirtualHosts.Dispatch

/-! ### Segments and the texts in their places -/

/-- Whether a text may stand in the place of a segment: any text but the empty one in the place
of a parameter, and in that of another segment only the segment itself. -/
def Admits (segment text : List Char) : Prop :=
  match parameterName? segment with
  | some _ => text ≠ []
  | none => text = segment

def capture? (segment text : List Char) : Option (String × String) :=
  (parameterName? segment).map fun name => (.ofList name, .ofList text)

/-- The texts in the places of parameters, each with the name. -/
def captures (segments texts : List (List Char)) : List (String × String) :=
  (List.zipWith capture? segments texts).filterMap id

theorem captures_cons (segment text : List Char) (segments texts : List (List Char)) :
    captures (segment :: segments) (text :: texts) =
      (capture? segment text).toList ++ captures segments texts := by
  rw [captures, List.zipWith_cons_cons, List.filterMap_cons]
  cases capture? segment text <;> rfl

theorem isRest_segmentOf {segment : List Char}
    (single : ∀ name, parameterName? segment = some name → name.head? ≠ some '*') :
    (segmentOf segment).isRest = false := by
  unfold segmentOf
  split
  · exact absurd rfl (single _ rfl)
  · rfl
  · rfl

theorem match?_segmentOf_eq_some_iff {segment : List Char}
    (single : ∀ name, parameterName? segment = some name → name.head? ≠ some '*')
    {text : List Char} {found : List (String × String)} :
    (segmentOf segment).match? text = some found ↔ Admits segment text ∧
      found = (capture? segment text).toList := by
  cases names : namesParameter segment with
  | false =>
      have nameless : parameterName? segment = none := by
        rwa [namesParameter_eq, Option.isSome_eq_false_iff, Option.isNone_iff_eq_none] at names
      rw [segmentOf_of_plain names, Segment.match?, Admits, capture?, nameless]
      by_cases same : segment = text
      · simp [same, eq_comm]
      · simp [same, Ne.symm same]
  | true =>
      obtain ⟨first, name, rfl⟩ := (namesParameter_iff segment).mp names
      have noStar : first ≠ '*' := fun star => single _ rfl (congrArg some star)
      rw [segmentOf_of_name noStar, Segment.match?, Admits]
      cases text <;> simp [Text.dropBeginning?, capture?, parameterName?, eq_comm]

theorem matchSegments?_segmentOf_eq_some_iff {segments texts : List (List Char)}
    (single : ∀ name ∈ segments.filterMap parameterName?, name.head? ≠ some '*')
    {found : List (String × String)} :
    matchSegments? (segments.map segmentOf) texts = some found ↔
      List.Forall₂ Admits segments texts ∧ found = captures segments texts := by
  induction segments generalizing texts found with
  | nil =>
      cases texts with
      | nil => simp [matchSegments?, captures, eq_comm]
      | cons text texts => simp [matchSegments?]
  | cons segment segments ih =>
      cases texts with
      | nil => simp [matchSegments?]
      | cons text texts =>
          have own : ∀ name, parameterName? segment = some name → name.head? ≠ some '*' := by
            intro name same
            exact single name (List.mem_filterMap.mpr ⟨segment, List.mem_cons_self, same⟩)
          have others : ∀ name ∈ segments.filterMap parameterName?, name.head? ≠ some '*' := by
            intro name member
            obtain ⟨other, inside, same⟩ := List.mem_filterMap.mp member
            exact single name
              (List.mem_filterMap.mpr ⟨other, List.mem_cons_of_mem _ inside, same⟩)
          rw [List.map_cons, matchSegments?, isRest_segmentOf own, if_neg Bool.false_ne_true,
            List.forall₂_cons, captures_cons]
          simp only [Option.bind_eq_bind, Option.bind_eq_some_iff, Option.pure_def,
            Option.some.injEq, match?_segmentOf_eq_some_iff own, ih others]
          constructor
          · rintro ⟨_, ⟨admits, rfl⟩, _, ⟨rest, rfl⟩, rfl⟩
            exact ⟨⟨admits, rest⟩, rfl⟩
          · rintro ⟨⟨admits, rest⟩, rfl⟩
            exact ⟨_, ⟨admits, rfl⟩, _, ⟨rest, rfl⟩, rfl⟩

/-! ### One text for each name -/

theorem mem_map_fst_paramsOf {found : List (String × String)} {name : String} :
    name ∈ (paramsOf found).map Prod.fst ↔ name ∈ found.map Prod.fst := by
  induction found with
  | nil => rfl
  | cons first rest ih =>
      obtain ⟨own, value⟩ := first
      rw [paramsOf, List.map_cons, List.mem_cons, ← ih]
      split
      · rename_i again
        constructor
        · exact .inr
        · rintro (rfl | later)
          · obtain ⟨⟨other, text⟩, member, same⟩ := List.any_eq_true.mp again
            rw [ih, ← beq_iff_eq.mp same]
            exact List.mem_map.mpr ⟨_, member, rfl⟩
          · exact later
      · rw [List.map_cons, List.mem_cons]

theorem nodup_paramsOf (found : List (String × String)) :
    ((paramsOf found).map Prod.fst).Nodup := by
  induction found with
  | nil => exact List.nodup_nil
  | cons first rest ih =>
      obtain ⟨own, value⟩ := first
      rw [paramsOf]
      split
      · exact ih
      · rename_i last
        refine List.nodup_cons.mpr ⟨fun again => last ?_, ih⟩
        obtain ⟨pair, member, same⟩ := List.mem_map.mp (mem_map_fst_paramsOf.mp again)
        exact List.any_eq_true.mpr ⟨pair, member, beq_iff_eq.mpr same⟩

theorem paramsOf_of_nodup {found : List (String × String)}
    (distinct : (found.map Prod.fst).Nodup) : paramsOf found = found := by
  induction found with
  | nil => rfl
  | cons first rest ih =>
      obtain ⟨own, value⟩ := first
      obtain ⟨fresh, others⟩ := List.nodup_cons.mp distinct
      rw [paramsOf, ih others, if_neg]
      intro again
      obtain ⟨pair, member, same⟩ := List.any_eq_true.mp again
      exact fresh (List.mem_map.mpr ⟨pair, member, beq_iff_eq.mp same⟩)

def parameterAt? (segments : List (List Char)) (place : Nat) : Option (List Char) :=
  segments[place]?.bind parameterName?

/-- Whether a text stands in the last place that has the parameter of a name. -/
def IsBound (segments texts : List (List Char)) (name text : List Char) : Prop :=
  ∃ place, parameterAt? segments place = some name ∧ texts[place]? = some text ∧
    ∀ later, place < later → parameterAt? segments later ≠ some name

theorem mem_names_iff {segments : List (List Char)} {name : List Char} :
    name ∈ segments.filterMap parameterName? ↔
      ∃ place, parameterAt? segments place = some name := by
  rw [List.mem_filterMap]
  simp only [List.mem_iff_getElem?, parameterAt?, Option.bind_eq_some_iff]
  constructor
  · rintro ⟨segment, ⟨place, atPlace⟩, same⟩
    exact ⟨place, segment, atPlace, same⟩
  · rintro ⟨place, segment, atPlace, same⟩
    exact ⟨segment, ⟨place, atPlace⟩, same⟩

theorem isBound_cons {segment own : List Char} {segments texts : List (List Char)}
    {name text : List Char} :
    IsBound (segment :: segments) (own :: texts) name text ↔
      IsBound segments texts name text ∨
        parameterName? segment = some name ∧ own = text ∧
          name ∉ segments.filterMap parameterName? := by
  constructor
  · rintro ⟨place, atPlace, texted, last⟩
    cases place with
    | zero =>
        refine .inr ⟨atPlace, Option.some.inj texted, fun again => ?_⟩
        obtain ⟨later, there⟩ := mem_names_iff.mp again
        exact last (later + 1) (Nat.succ_pos later) there
    | succ place =>
        exact .inl ⟨place, atPlace, texted, fun later behind =>
          last (later + 1) (Nat.succ_lt_succ behind)⟩
  · rintro (⟨place, atPlace, texted, last⟩ | ⟨atFront, rfl, never⟩)
    · refine ⟨place + 1, atPlace, texted, fun later behind => ?_⟩
      cases later with
      | zero => exact absurd behind (Nat.not_lt_zero _)
      | succ later => exact last later (Nat.lt_of_succ_lt_succ behind)
    · refine ⟨0, atFront, rfl, fun later behind there => never ?_⟩
      cases later with
      | zero => exact absurd behind (Nat.lt_irrefl 0)
      | succ later => exact mem_names_iff.mpr ⟨later, there⟩

section Admitted

variable {segments texts : List (List Char)}

theorem map_fst_captures (admitted : List.Forall₂ Admits segments texts) :
    (captures segments texts).map Prod.fst =
      (segments.filterMap parameterName?).map String.ofList := by
  induction admitted with
  | nil => rfl
  | @cons segment text segments texts _ _ ih =>
      rw [captures_cons, List.map_append, ih, List.filterMap_cons, capture?]
      cases parameterName? segment <;> rfl

/-- Of the texts in the places of one name, the last is kept. -/
theorem mem_paramsOf_captures (admitted : List.Forall₂ Admits segments texts)
    {name value : String} :
    (name, value) ∈ paramsOf (captures segments texts) ↔
      IsBound segments texts name.toList value.toList := by
  induction admitted with
  | nil => simp [captures, paramsOf, IsBound, parameterAt?]
  | @cons segment text segments texts _ rest ih =>
      rw [captures_cons, isBound_cons, ← ih, capture?]
      cases named : parameterName? segment with
      | none => simp
      | some own =>
          have again : (captures segments texts).any (·.1 == String.ofList own) = true ↔
              own ∈ segments.filterMap parameterName? := by
            have keys := map_fst_captures rest
            rw [← List.mem_map_of_injective fun _ _ same => String.ofList_injective same, ← keys,
              List.mem_map, List.any_eq_true]
            simp only [beq_iff_eq]
          rw [Option.map_some, Option.toList_some, List.singleton_append, paramsOf]
          by_cases later : own ∈ segments.filterMap parameterName?
          · rw [if_pos (again.mpr later)]
            refine (or_iff_left ?_).symm
            rintro ⟨same, _, never⟩
            rw [← Option.some.inj same] at never
            exact never later
          · have head : (name, value) = (String.ofList own, String.ofList text) ↔
                some own = some name.toList ∧ text = value.toList ∧
                  name.toList ∉ segments.filterMap parameterName? := by
              constructor
              · intro same
                obtain ⟨rfl, rfl⟩ := Prod.mk.inj same
                simpa using later
              · rintro ⟨same, rfl, _⟩
                rw [Option.some.inj same, String.ofList_toList, String.ofList_toList]
            rw [if_neg (mt again.mp later), List.mem_cons, head, or_comm]

end Admitted

/-! ### Captures of a request -/

theorem RouteSet.captured_of_find? {β : Type} {routes : RouteSet β} {path : String}
    {route : ExactRoute β} {captured : List (String × String)}
    (found : routes.find? path = some (route, captured)) :
    matchSegments? route.segments (Text.segments path.toList) = some captured := by
  unfold RouteSet.find? at found
  simp only [Option.bind_eq_bind, Option.bind_eq_some_iff, Option.pure_def, Option.some.injEq,
    Prod.mk.injEq] at found
  obtain ⟨_, _, _, matched, rfl, rfl⟩ := found
  exact matched

variable {α : Type}

namespace HostTable

theorem lookup_of_exact {table : HostTable α} {method path : String}
    {route : ExactRoute (Group α)} {captured : List (String × String)} {answer : Answer α}
    (exact : table.exact.find? path = some (route, captured))
    (given : Group.answer? route.value method = some answer) :
    table.lookup method path = .found answer.chain (paramsOf captured) := by
  simp [lookup, exact, given]

/-- Only an exact route captures anything. -/
theorem exact_of_captured {table : HostTable α} {method path : String} {chain : List α}
    {params : List (String × String)} (found : table.lookup method path = .found chain params)
    (some : params ≠ []) :
    ∃ route captured answer, table.exact.find? path = Option.some (route, captured) ∧
      Group.answer? route.value method = Option.some answer ∧ answer.chain = chain ∧
        paramsOf captured = params := by
  unfold lookup at found
  dsimp only at found
  split at found
  · rename_i outcome answered
    obtain ⟨⟨route, captured⟩, exact, allowed⟩ := Option.bind_eq_some_iff.mp answered
    obtain ⟨answer, given, rfl⟩ := Option.map_eq_some_iff.mp allowed
    cases found
    exact ⟨route, captured, answer, exact, given, rfl, rfl⟩
  · split at found
    · cases found
      exact absurd rfl some
    · split at found <;> cases found

end HostTable

/-- Whether parameters are what is captured from a path by a pathname. -/
structure Captures (pathname path : String) (params : List (String × String)) : Prop where
  parameters : parameterNames pathname.toList ≠ []
  noStar : pathname.toList.getLast? ≠ some '*'
  shape : List.Forall₂ Admits (Text.segments pathname.toList) (Text.segments path.toList)
  distinct : (params.map Prod.fst).Nodup
  names : ∀ name, name ∈ params.map Prod.fst ↔ name.toList ∈ parameterNames pathname.toList
  bound : ∀ name value, (name, value) ∈ params ↔
    IsBound (Text.segments pathname.toList) (Text.segments path.toList) name.toList value.toList

theorem captures_of_matchSegments? {pathname path : String}
    (proper : Pattern.Proper pathname)
    (single : ∀ name ∈ parameterNames pathname.toList, name.head? ≠ some '*')
    {captured : List (String × String)} (some : paramsOf captured ≠ [])
    (matched : matchSegments? ((Text.segments pathname.toList).map segmentOf)
      (Text.segments path.toList) = Option.some captured) :
    Captures pathname path (paramsOf captured) := by
  obtain ⟨shape, rfl⟩ := (matchSegments?_segmentOf_eq_some_iff single).mp matched
  have keys (name : String) : name ∈ (paramsOf (captures (Text.segments pathname.toList)
      (Text.segments path.toList))).map Prod.fst ↔
        name.toList ∈ parameterNames pathname.toList := by
    rw [mem_map_fst_paramsOf, map_fst_captures shape, ← parameterNames]
    constructor
    · intro member
      obtain ⟨own, known, rfl⟩ := List.mem_map.mp member
      rwa [String.toList_ofList]
    · intro known
      exact List.mem_map.mpr ⟨_, known, String.ofList_toList⟩
  refine ⟨?_, proper.noStar, shape, nodup_paramsOf _, keys, fun _ _ =>
    mem_paramsOf_captures shape⟩
  obtain ⟨⟨name, value⟩, member⟩ := List.exists_mem_of_ne_nil _ some
  exact List.ne_nil_of_mem ((keys name).mp (List.mem_map.mpr ⟨_, member, rfl⟩))

theorem HasRoute.eq_map_segmentOf {registration : Registration α} {segments : List Segment}
    (route : HasRoute registration segments)
    (legible : ∀ name ∈ parameterNames registration.pathname.toList, Legible name) :
    segments = (Text.segments registration.pathname.toList).map segmentOf := by
  obtain ⟨text, pattern, read⟩ := route
  rw [Pattern.eq_patternText pattern] at read
  exact routeOf?_of_legible legible read

/-- What a request captures is captured by the pathname of the registration whose chain it is
given: it has parameters, the path has its segments but for them, and each name is bound to the
text in its last place. -/
theorem Table.lookup_captures {registrations : List (Registration α)} {table : Table α}
    (built : build registrations = .ok table)
    (words : ∀ registration ∈ registrations, registration.pathname.toList.getLast? ≠ some '*' →
      WordNames registration.pathname.toList)
    {host : String} {port : Option UInt16} {method path : String} {chain : List α}
    {params : List (String × String)}
    (found : table.lookup host port method path = .found chain params) (some : params ≠ []) :
    ∃ registration ∈ selected registrations host port, registration.chain = chain ∧
      registration.verbs.allows method = true ∧ Captures registration.pathname path params := by
  obtain ⟨declared, served, made, answers⟩ := lookup_of_selected built host port
  rw [answers] at found
  obtain ⟨route, captured, answer, exact, given, rfl, rfl⟩ :=
    HostTable.exact_of_captured found some
  obtain ⟨text, _, read, grouped, _⟩ := HostTable.find?_eq_some made exact
  rw [grouped] at given
  obtain ⟨registration, member, pattern, allows, same⟩ := HostTable.exists_of_answer? given
  have known : registration ∈ registrations :=
    (List.mem_filter.mp (List.mem_filter.mp member).1).1
  have names := words registration known (Pattern.proper_of_exact pattern).noStar
  have route : route.segments = _ := HasRoute.eq_map_segmentOf ⟨text, pattern, read⟩ names.legible
  have matched := RouteSet.captured_of_find? exact
  rw [route] at matched
  have single : ∀ name ∈ parameterNames registration.pathname.toList,
      name.head? ≠ Option.some '*' := by
    intro name inPathname star
    exact names.starless name inPathname (List.mem_of_mem_head? star)
  exact ⟨registration, member, same, allows, captures_of_matchSegments?
    (Pattern.proper_of_exact pattern) single some matched⟩

/-- A name in two places, braces beside parameters, and a beginning with a name for text. -/
def archive : List (Registration Nat) :=
  [⟨"a.test", 80, "/{old}/:year/to/:year", .single .get, [1]⟩,
    ⟨"a.test", 80, "/:topic/:year/to", .single .get, [2]⟩,
    ⟨"a.test", 80, "/{old}/:year/to/:year", .single .post, [3]⟩,
    ⟨"a.test", 80, "/:topic*", .every, [4]⟩]

theorem Table.lookup_captures_archive :
    ∃ table, build archive = .ok table ∧
      (∀ registration ∈ archive, registration.pathname.toList.getLast? ≠ some '*' →
        WordNames registration.pathname.toList) ∧
      table.lookup "a.test" none "POST" "/{old}/1999/to/2001" =
        .found [3] [("year", "2001")] ∧
      ∃ registration ∈ selected archive "a.test" none, registration.chain = [3] ∧
        registration.verbs.allows "POST" = true ∧
          Captures registration.pathname "/{old}/1999/to/2001" [("year", "2001")] := by
  have succeeds : (build archive).isOk = true := by decide +kernel
  obtain ⟨table, built⟩ := (isOk_iff_exists _).mp succeeds
  have words : ∀ registration ∈ archive, registration.pathname.toList.getLast? ≠ some '*' →
      WordNames registration.pathname.toList := by
    decide +kernel
  have found : ((build archive).toOption.map fun table =>
      table.lookup "a.test" none "POST" "/{old}/1999/to/2001") =
        some (.found [3] [("year", "2001")]) := by decide +kernel
  rw [built] at found
  have found := Option.some.inj found
  exact ⟨table, built, words, found, lookup_captures built words found (by simp)⟩

end VirtualHosts.Dispatch
