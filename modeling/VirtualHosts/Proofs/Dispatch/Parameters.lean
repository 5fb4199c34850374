/-
Parameters with values.

A pathname whose names are read as they are written answers every path that it becomes with
values for its parameters, and hands the values on.  With a star at its end it is a beginning
instead: its names are text, and nothing is captured.
-/

import VirtualHosts.Proofs.Dispatch.Captures

namespace VirtualHosts.Dispatch

def fillSegment (values : List Char → List Char) (segment : List Char) : List Char :=
  ((parameterName? segment).map values).getD segment

/-- A pathname with a value in the place of each of its parameters. -/
def filledWith (values : List Char → List Char) (chars : List Char) : List Char :=
  Text.join ['/'] ((Text.segments chars).map (fillSegment values))

/-- The names of a pathname, each with its value. -/
def bindings (values : List Char → List Char) (chars : List Char) : List (String × String) :=
  (parameterNames chars).map fun name => (.ofList name, .ofList (values name))

section Filled

variable {values : List Char → List Char} {chars : List Char}

theorem segments_filledWith (noSlash : ∀ name ∈ parameterNames chars, '/' ∉ values name) :
    Text.segments (filledWith values chars) = (Text.segments chars).map (fillSegment values) := by
  refine Text.segments_join_map fun segment known => ?_
  cases named : parameterName? segment with
  | none =>
      rw [fillSegment, named]
      exact Text.slash_notMem_segments chars segment known
  | some name =>
      rw [fillSegment, named]
      exact noSlash name (List.mem_filterMap.mpr ⟨segment, known, named⟩)

theorem admits_fillSegment {segments : List (List Char)}
    (some : ∀ name ∈ segments.filterMap parameterName?, values name ≠ []) :
    List.Forall₂ Admits segments (segments.map (fillSegment values)) := by
  rw [List.forall₂_map_right_iff, List.forall₂_same]
  intro segment member
  unfold Admits fillSegment
  split
  · rename_i name named
    rw [named]
    exact some name (List.mem_filterMap.mpr ⟨segment, member, named⟩)
  · rename_i nameless
    rw [nameless]
    rfl

theorem captures_fillSegment (segments : List (List Char)) :
    captures segments (segments.map (fillSegment values)) =
      (segments.filterMap parameterName?).map fun name =>
        (.ofList name, .ofList (values name)) := by
  induction segments with
  | nil => rfl
  | cons segment segments ih =>
      rw [List.map_cons, captures_cons, ih, List.filterMap_cons, capture?, fillSegment]
      cases parameterName? segment <;> rfl

theorem paramsOf_bindings (distinct : (parameterNames chars).Nodup) :
    paramsOf (bindings values chars) = bindings values chars := by
  refine paramsOf_of_nodup ?_
  rw [bindings, List.map_map]
  refine List.Pairwise.map _ ?_ distinct
  intro name other differ same
  exact differ (String.ofList_injective same)

end Filled

/-! ### A table with one registration -/

section Alone

variable {β : Type} {text path : String} {segments : List Segment}

theorem RouteSet.find?_alone (read : routeOf? text = some segments) (value : β)
    {captured : List (String × String)}
    (matched : matchSegments? segments (Text.segments path.toList) = some captured) :
    RouteSet.find? [⟨segments, value⟩] path = some (⟨segments, value⟩, captured) := by
  have foremost := find?_foremost (consistent_alone read value) path
  cases found : RouteSet.find? [(⟨segments, value⟩ : ExactRoute β)] path with
  | none =>
      rw [found] at foremost
      refine absurd ⟨Option.isSome_of_eq_some matched, ?_⟩ (foremost segments List.mem_cons_self)
      intro other only
      rw [List.mem_singleton.mp only]
      exact GivenUp.irrefl
  | some result =>
      obtain ⟨route, other⟩ := result
      rw [found] at foremost
      obtain rfl := List.mem_singleton.mp foremost.1
      rw [Option.some.inj ((RouteSet.captured_of_find? found).symm.trans matched)]

end Alone

variable {α : Type}

theorem selected_alone {registration : Registration α} {host : String} {port : Option UInt16}
    (sameHost : normalizeHost host = normalizeHost registration.hostname)
    (onPort : ∀ given ∈ port, given = registration.port) :
    selected [registration] host port = [registration] := by
  have asked : port.or (some registration.port) = some registration.port := by
    cases port with
    | none => rfl
    | some given => rw [Option.some_or, onPort given rfl]
  simp [selected, sameHost, asked]

namespace HostTable

variable {hostname : String} {port : UInt16} {registration : Registration α}
  {table : HostTable α} {method path : String}

theorem groups_alone {pattern : Pattern}
    (only : Pattern.ofPathname registration.pathname = [pattern]) :
    groups [registration] = [(pattern, [answerOf registration])] := by
  simp [groups, only, gather, addUnder, answerOf]

theorem answer?_alone (allows : registration.verbs.allows method = true) :
    Group.answer? [answerOf registration] method = some (answerOf registration) :=
  List.find?_cons_of_pos allows

theorem exact_alone {text : String}
    (only : Pattern.ofPathname registration.pathname = [.exact text])
    (built : build hostname port [registration] = .ok table) :
    ∃ segments, routeOf? text = some segments ∧
      table.exact = [⟨segments, [answerOf registration]⟩] := by
  have inserted := (build_eq_ok built).1
  rw [groups_alone only, List.foldlM_cons, bind_eq_ok_iff] at inserted
  obtain ⟨exact, inserted, ended⟩ := inserted
  cases ended
  rw [insertExact, mapError_eq_ok_iff] at inserted
  exact insert_nil_eq_ok_iff.mp inserted

/-- With a pattern for a beginning alone, the paths that begin so are answered. -/
theorem lookup_below_alone {beginning : String}
    (only : Pattern.ofPathname registration.pathname = [.below beginning])
    (built : build hostname port [registration] = .ok table)
    (allows : registration.verbs.allows method = true) (path : String) :
    table.lookup method path = if Text.startsWith path beginning = true then
      .found registration.chain [] else .notFound := by
  obtain ⟨inserted, sorted⟩ := build_eq_ok built
  rw [groups_alone only] at inserted sorted
  obtain ⟨exact, below⟩ := table
  cases inserted
  obtain rfl : below = [(beginning, [answerOf registration])] := by
    rw [show below = _ from sorted, sortBelow]
    exact List.mergeSort_singleton _
  have nothing : RouteSet.find? ([] : RouteSet (Group α)) path = none := by
    unfold RouteSet.find?
    simp [search]
  by_cases starts : Text.startsWith path beginning = true
  · simp [lookup, nothing, belowOf, starts, answer?_alone allows]
    rfl
  · simp [lookup, nothing, belowOf, starts]

theorem lookup_exact_alone {text : String}
    (only : Pattern.ofPathname registration.pathname = [.exact text])
    (built : build hostname port [registration] = .ok table)
    (allows : registration.verbs.allows method = true)
    {captured : List (String × String)}
    (matched : ∀ segments, routeOf? text = some segments →
      matchSegments? segments (Text.segments path.toList) = some captured) :
    table.lookup method path = .found registration.chain (paramsOf captured) := by
  obtain ⟨segments, read, routes⟩ := exact_alone only built
  have found := RouteSet.find?_alone read [answerOf registration] (matched segments read)
  rw [← routes] at found
  exact lookup_of_exact found (answer?_alone allows)

end HostTable

/-- Alone in its table, a pathname with parameters binds each name to whatever value stands in
its place.  If it ends in a star, the text in front of that is a beginning, and the names are
part of the text. -/
theorem Table.lookup_binds_parameters {registration : Registration α} {table : Table α}
    (built : build [registration] = .ok table) {host : String} {port : Option UInt16}
    {method : String} (sameHost : normalizeHost host = normalizeHost registration.hostname)
    (onPort : ∀ given ∈ port, given = registration.port)
    (allows : registration.verbs.allows method = true)
    (named : parameterNames registration.pathname.toList ≠ []) :
    (registration.pathname.toList.getLast? ≠ some '*' →
      (parameterNames registration.pathname.toList).Nodup →
      (∀ name ∈ parameterNames registration.pathname.toList,
        Legible name ∧ name.head? ≠ some '*') →
      ∀ values : List Char → List Char,
        (∀ name ∈ parameterNames registration.pathname.toList,
          values name ≠ [] ∧ '/' ∉ values name) →
        table.lookup host port method
            (.ofList (filledWith values registration.pathname.toList)) =
          .found registration.chain (bindings values registration.pathname.toList)) ∧
    ∀ beginning, registration.pathname.toList = beginning ++ ['*'] → ∀ path,
      table.lookup host port method path =
        if Text.startsWith path (.ofList beginning) = true then .found registration.chain []
        else .notFound := by
  obtain ⟨declared, served, made, answers⟩ := lookup_of_selected built host port
  rw [selected_alone sameHost onPort] at made
  constructor
  · intro noStar distinct legible values given
    have matched : matchSegments? ((Text.segments registration.pathname.toList).map segmentOf)
        (Text.segments (String.ofList (filledWith values registration.pathname.toList)).toList) =
          some (bindings values registration.pathname.toList) := by
      rw [String.toList_ofList, segments_filledWith fun name member => (given name member).2]
      refine (matchSegments?_segmentOf_eq_some_iff fun name member =>
        (legible name member).2).mpr ⟨?_, (captures_fillSegment _).symm⟩
      exact admits_fillSegment fun name member => (given name member).1
    rw [answers, ← paramsOf_bindings distinct]
    refine HostTable.lookup_exact_alone (Pattern.ofPathname_named noStar named) made allows ?_
    intro segments read
    rw [routeOf?_of_legible (fun name member => (legible name member).1) read]
    exact matched
  · intro beginning ends path
    have nonempty : beginning ≠ [] := by
      rintro rfl
      rw [ends] at named
      exact named rfl
    rw [answers]
    exact HostTable.lookup_below_alone (Pattern.ofPathname_star nonempty ends) made allows path

def comments : Registration Nat :=
  ⟨"A.test", 80, "/users/:user id/posts/:post", .single .get, [1]⟩

def commentsBelow : Registration Nat :=
  ⟨"a.test", 80, "/users/:user id/*", .every, [2]⟩

def commentValues (name : List Char) : List Char :=
  if name = "post".toList then ":9".toList else "{7}".toList

theorem Table.lookup_binds_parameters_comments :
    (∃ table, build [comments] = .ok table ∧
      table.lookup "a.test:80" none "GET" "/users/{7}/posts/:9" =
        .found [1] [("user id", "{7}"), ("post", ":9")]) ∧
    ∃ table, build [commentsBelow] = .ok table ∧ ∀ path,
      table.lookup "a.test" (some 80) "PUT" path =
        if Text.startsWith path "/users/:user id/" = true then .found [2] [] else .notFound := by
  have succeeds : (build [comments]).isOk = true := by decide +kernel
  have belowSucceeds : (build [commentsBelow]).isOk = true := by decide +kernel
  obtain ⟨table, built⟩ := (isOk_iff_exists _).mp succeeds
  obtain ⟨belowTable, belowBuilt⟩ := (isOk_iff_exists _).mp belowSucceeds
  have sameHost : normalizeHost "a.test:80" = normalizeHost comments.hostname := by
    decide +kernel
  have belowHost : normalizeHost "a.test" = normalizeHost commentsBelow.hostname := by
    decide +kernel
  have unnamed : ∀ given ∈ (none : Option UInt16), given = comments.port := by simp
  have onPort : ∀ given ∈ some (80 : UInt16), given = commentsBelow.port :=
    fun given same => (Option.some.inj same).symm
  have allows : comments.verbs.allows "GET" = true := by decide +kernel
  have belowAllows : commentsBelow.verbs.allows "PUT" = true := by decide +kernel
  have answered := (lookup_binds_parameters built sameHost unnamed allows (by decide +kernel)).1
    (by decide +kernel) (by decide +kernel) (by decide +kernel) commentValues (by decide +kernel)
  have below := (lookup_binds_parameters belowBuilt belowHost onPort belowAllows
    (by decide +kernel)).2 "/users/:user id/".toList (by decide +kernel)
  have path : filledWith commentValues comments.pathname.toList =
      "/users/{7}/posts/:9".toList := by decide +kernel
  have bound : bindings commentValues comments.pathname.toList =
      [("user id", "{7}"), ("post", ":9")] := by decide +kernel
  rw [path, bound, String.ofList_toList] at answered
  rw [String.ofList_toList] at below
  exact ⟨⟨table, built, answered⟩, belowTable, belowBuilt, below⟩

/-- What becomes of a path, with a registration for every method alone in the table. -/
def replyAlone (pathname path : String) : Option (Dispatched Nat) :=
  (Table.build [⟨"a.test", 80, pathname, .every, [1]⟩]).toOption.map fun table =>
    table.lookup "a.test" (some 80) "GET" path

/-- With a star at the end of the pathname nothing is captured, and neither is under a name that
has braces around it.  A star in front of a name is not part of it, and of two braces one is
left out. -/
theorem Table.lookup_parameters_lost :
    (∀ name ∈ ["id", "{id}", "*id", "a\x7b\x7bb", "a\x7d\x7db"],
      parameterNames ("/users/:" ++ name).toList = [name.toList] ∧
        filledWith (fun _ => ['7']) ("/users/:" ++ name).toList = "/users/7".toList) ∧
    replyAlone "/users/:id*" "/users/7" = some .notFound ∧
    replyAlone "/users/:{id}" "/users/7" = some .notFound ∧
    replyAlone "/users/:*id" "/users/7" = some (.found [1] [("id", "7")]) ∧
    replyAlone "/users/:a\x7b\x7bb" "/users/7" = some (.found [1] [("a\x7bb", "7")]) ∧
    replyAlone "/users/:a\x7d\x7db" "/users/7" = some (.found [1] [("a\x7db", "7")]) := by
  decide +kernel

end VirtualHosts.Dispatch
