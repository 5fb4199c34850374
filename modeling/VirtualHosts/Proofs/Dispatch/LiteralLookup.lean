/-
Requests for pathnames without parameters.

Without parameters a table can always be built, and it answers as one scan through all
registrations does: the scan compares pathnames with the path themselves, and no pattern,
no group and no order of beginnings is part of it.
-/

import Mathlib.Data.List.DropRight
import VirtualHosts.Proofs.Dispatch.Groups
import VirtualHosts.Proofs.Dispatch.LiteralRoutes
import VirtualHosts.Proofs.Dispatch.Selection

namespace VirtualHosts.Dispatch

variable {α : Type}

/-! ### The scan -/

namespace Scan

/-- Whether a pathname is about its own path. -/
def standsAlone (pathname : String) : Bool :=
  pathname ≠ "" ∧ pathname ≠ "/" ∧ pathname.toList.getLast? ≠ some '*'

def isItself (pathname path : String) : Bool :=
  standsAlone pathname ∧ pathname = path

/-- The beginning of the paths that a pathname is about besides. -/
def beginning (pathname : String) : String :=
  if pathname = "" ∨ pathname = "*" ∨ pathname = "/" then "/"
  else if pathname.toList.getLast? = some '*' then .ofList pathname.toList.dropLast
  else .ofList (pathname.toList.rdropWhile (· == '/') ++ ['/'])

def isBelow (pathname path : String) : Bool :=
  (beginning pathname).toList.isPrefixOf path.toList

def matching (registrations : List (Registration α)) (path : String) : List (Registration α) :=
  registrations.filter fun registration =>
    isItself registration.pathname path ∨ isBelow registration.pathname path

def able (registrations : List (Registration α)) (method path : String) :
    List (Registration α) :=
  (matching registrations path).filter (·.verbs.allows method)

/-- The first registration whose beginning is as long as that of any other. -/
def longest? (registrations : List (Registration α)) : Option (Registration α) :=
  registrations.find? fun registration => registrations.all fun other =>
    (beginning other.pathname).length ≤ (beginning registration.pathname).length

/-- The chain of the first able registration for the path itself, else of the first with
the longest beginning. -/
def lookup (registrations : List (Registration α)) (method path : String) : Dispatched α :=
  let able := able registrations method path
  match able.find? (isItself ·.pathname path) with
  | some registration => .found registration.chain []
  | none =>
      match longest? (able.filter (isBelow ·.pathname path)) with
      | some registration => .found registration.chain []
      | none => if (matching registrations path).isEmpty then .notFound else .methodNotAllowed

/-- Of registrations that all begin as one text, the first with that very text has the longest
beginning. -/
theorem longest?_eq_some {able : List (Registration α)} (longest : String)
    {registration : Registration α}
    (first : able.find? (beginning ·.pathname = longest) = some registration)
    (within : ∀ other ∈ able, (beginning other.pathname).toList <+: longest.toList) :
    longest? able = some registration := by
  have given := List.mem_of_find?_eq_some first
  have own := List.find?_some first
  rw [decide_eq_true_iff] at own
  rw [longest?, ← first]
  refine List.find?_congr fun other member => ?_
  rw [Bool.eq_iff_iff]
  simp only [decide_eq_true_eq, List.all_eq_true]
  constructor
  · intro maximal
    have size := maximal registration given
    rw [own, ← String.length_toList, ← String.length_toList] at size
    exact String.toList_inj.mp ((within other member).eq_of_length_le size)
  · intro same rival rivalMember
    rw [same, ← String.length_toList, ← String.length_toList]
    exact (within rival rivalMember).length_le

end Scan

/-! ### Patterns without parameters -/

/-- The pathname has no segment that is marked as a parameter. -/
def Unmarked (pathname : String) : Prop :=
  ∀ segment ∈ Text.segments pathname.toList, isMarked segment = false

instance (pathname : String) : Decidable (Unmarked pathname) :=
  inferInstanceAs (Decidable (∀ segment ∈ _, _))

theorem doubleBraces_injective {left right : List Char}
    (same : doubleBraces left = doubleBraces right) : left = right := by
  rw [← plainText_doubleBraces left, ← plainText_doubleBraces right, same]

def itself (path : String) : Pattern :=
  .exact (.ofList (doubleBraces path.toList))

theorem itself_injective {left right : String} (same : itself left = itself right) :
    left = right := by
  have texts := String.ofList_injective (Pattern.exact.inj same)
  exact String.toList_inj.mp (doubleBraces_injective texts)

theorem ofPathname_unmarked {pathname : String} (unmarked : Unmarked pathname) :
    Pattern.ofPathname pathname =
      if Scan.standsAlone pathname then [itself pathname, .below (Scan.beginning pathname)]
      else [.below (Scan.beginning pathname)] := by
  unfold Scan.standsAlone Scan.beginning
  rcases Pattern.kinds pathname with root | ⟨beginning, nonempty, ends⟩ | proper
  · rw [Pattern.ofPathname_root root]
    rcases root with empty | star | slash
    · rw [String.toList_eq_nil_iff] at empty
      simp [empty]
    · obtain rfl : pathname = "*" := String.toList_inj.mp star
      rfl
    · obtain rfl : pathname = "/" := String.toList_inj.mp slash
      rfl
  · have long : ¬(pathname = "" ∨ pathname = "*" ∨ pathname = "/") := by
      have longer := Pattern.not_root_of_star nonempty ends
      rintro (rfl | rfl | rfl)
      · exact longer (.inl rfl)
      · exact longer (.inr (.inl rfl))
      · exact longer (.inr (.inr rfl))
    rw [Pattern.ofPathname_star nonempty ends, if_neg long]
    simp [ends]
  · have long : ¬(pathname = "" ∨ pathname = "*" ∨ pathname = "/") := by
      rintro (rfl | rfl | rfl)
      · exact proper.nonempty rfl
      · exact proper.noStar rfl
      · exact proper.notSlash rfl
    have alone : pathname ≠ "" ∧ pathname ≠ "/" ∧ pathname.toList.getLast? ≠ some '*' :=
      ⟨fun same => long (.inl same), fun same => long (.inr (.inr same)), proper.noStar⟩
    have noMark := mt (any_isMarked_iff (Text.segments pathname.toList)).mp (not_not.mpr unmarked)
    have text := patternText_eq_doubleBraces fun segment member =>
      namesParameter_of_isMarked (unmarked segment member)
    rw [Pattern.ofPathname_proper proper, if_neg noMark, text, if_pos (decide_eq_true alone),
      if_neg long, if_neg proper.noStar]
    rfl

theorem itself_mem {pathname : String} (unmarked : Unmarked pathname) (path : String) :
    itself path ∈ Pattern.ofPathname pathname ↔ Scan.isItself pathname path = true := by
  rw [ofPathname_unmarked unmarked, Scan.isItself, decide_eq_true_iff]
  cases Scan.standsAlone pathname with
  | false => simp [itself]
  | true =>
      simp only [if_true, List.mem_cons, List.not_mem_nil, or_false, true_and]
      constructor
      · rintro (same | other)
        · exact (itself_injective same).symm
        · cases other
      · intro same
        exact .inl (by rw [same])

theorem below_mem {pathname : String} (unmarked : Unmarked pathname) (beginning : String) :
    .below beginning ∈ Pattern.ofPathname pathname ↔ Scan.beginning pathname = beginning := by
  rw [ofPathname_unmarked unmarked]
  split
  · simp [itself, eq_comm]
  · simp [eq_comm]

theorem exact_mem {pathname text : String} (unmarked : Unmarked pathname)
    (member : .exact text ∈ Pattern.ofPathname pathname) :
    text = .ofList (doubleBraces pathname.toList) := by
  rw [ofPathname_unmarked unmarked] at member
  split at member
  · rcases List.mem_cons.mp member with same | other
    · exact Pattern.exact.inj same
    · simp at other
  · simp at member

namespace HostTable

/-! ### The exact patterns of a table -/

def literalRoute? : Pattern × Group α → Option (ExactRoute (Group α))
  | (.exact text, group) => some ⟨literalSegments (plainText text), group⟩
  | (.below _, _) => none

theorem foldlM_insertExact_literal (hostname : String) (port : UInt16)
    {groups : List (Pattern × Group α)} (distinct : (groups.map Prod.fst).Nodup)
    (literal : ∀ text group, (.exact text, group) ∈ groups →
      ∃ chars, text = .ofList (doubleBraces chars)) :
    groups.foldlM (insertExact hostname port) [] = .ok (groups.filterMap literalRoute?) := by
  induction groups using List.reverseRecOn with
  | nil => rfl
  | append_singleton groups last ih =>
      obtain ⟨pattern, group⟩ := last
      rw [List.map_append, List.map_singleton, List.nodup_append] at distinct
      have earlier := ih distinct.1 fun text group member =>
        literal text group (List.mem_append_left _ member)
      rw [foldlM_concat_of_ok earlier, List.filterMap_append]
      cases pattern with
      | below beginning => simp [insertExact, literalRoute?]
      | exact text =>
          obtain ⟨chars, rfl⟩ := literal text group (List.mem_append_right _ List.mem_cons_self)
          have new : List.find? (ExactRoute.sameShape (literalSegments chars) ·.segments)
              (groups.filterMap literalRoute?) = none := by
            rw [List.find?_eq_none]
            intro route member same
            obtain ⟨entry, known, made⟩ := List.mem_filterMap.mp member
            obtain ⟨other, values⟩ := entry
            cases other with
            | below beginning => cases made
            | exact text =>
                cases made
                obtain ⟨own, rfl⟩ := literal text values (List.mem_append_left _ known)
                rw [plainText_doubleBraces, sameShape_literalSegments, decide_eq_true_iff] at same
                subst same
                exact distinct.2.2 _ (List.mem_map.mpr ⟨_, known, rfl⟩) _
                  List.mem_cons_self rfl
          rw [insertExact, insert_literal, new]
          simp [literalRoute?, plainText_doubleBraces, Except.mapError]

section Unmarked

variable {registrations : List (Registration α)}

theorem groups_literal (unmarked : ∀ registration ∈ registrations, Unmarked registration.pathname)
    (text : String) (group : Group α) (member : (.exact text, group) ∈ groups registrations) :
    ∃ chars, text = .ofList (doubleBraces chars) := by
  rw [groups_eq] at member
  obtain ⟨pattern, known, same⟩ := List.mem_map.mp member
  cases same
  obtain ⟨registration, given, own⟩ := mem_patterns.mp (List.mem_eraseDups.mp known)
  exact ⟨_, exact_mem (unmarked registration given) own⟩

theorem foldlM_groups_unmarked (hostname : String) (port : UInt16)
    (unmarked : ∀ registration ∈ registrations, Unmarked registration.pathname) :
    (groups registrations).foldlM (insertExact hostname port) [] =
      .ok ((groups registrations).filterMap literalRoute?) := by
  refine foldlM_insertExact_literal hostname port ?_ (groups_literal unmarked)
  rw [groups_eq, List.map_map]
  simp only [Function.comp_def, List.map_id']
  exact nodup_eraseDups _

theorem build_unmarked (hostname : String) (port : UInt16)
    (unmarked : ∀ registration ∈ registrations, Unmarked registration.pathname) :
    ∃ table, build hostname port registrations = .ok table := by
  unfold build
  dsimp only
  rw [foldlM_groups_unmarked hostname port unmarked]
  exact ⟨_, rfl⟩

theorem find?_exact_unmarked
    (unmarked : ∀ registration ∈ registrations, Unmarked registration.pathname) (path : String) :
    RouteSet.find? ((groups registrations).filterMap literalRoute?) path =
      if itself path ∈ patterns registrations then
        some (⟨literalSegments path.toList, groupOf registrations (itself path)⟩, [])
      else none := by
  have segments (route : ExactRoute (Group α))
      (held : route ∈ (groups registrations).filterMap literalRoute?) :
      ∃ chars, route.segments = literalSegments chars := by
    obtain ⟨⟨pattern, group⟩, _, made⟩ := List.mem_filterMap.mp held
    cases pattern with
    | below beginning => cases made
    | exact text =>
        cases made
        exact ⟨_, rfl⟩
  have asked : ∀ pattern ∈ patterns registrations,
      (literalRoute? (pattern, groupOf registrations pattern)).any
          (·.segments == literalSegments path.toList) = decide (pattern = itself path) := by
    intro pattern known
    cases pattern with
    | below beginning => simp [literalRoute?, itself]
    | exact text =>
        obtain ⟨registration, given, own⟩ := mem_patterns.mp known
        have doubled := exact_mem (unmarked registration given) own
        subst doubled
        rw [Bool.eq_iff_iff, decide_eq_true_iff]
        simp only [literalRoute?, Option.any_some, plainText_doubleBraces, beq_iff_eq, itself]
        constructor
        · intro same
          rw [literalSegments_injective same]
        · intro same
          rw [doubleBraces_injective (String.ofList_injective (Pattern.exact.inj same))]
  rw [find?_literal segments, List.find?_filterMap, groups_eq, List.find?_map,
    find?_eraseDups]
  simp only [Function.comp_def]
  rw [List.find?_congr asked, find?_decide_eq]
  split
  · simp [literalRoute?, itself, plainText_doubleBraces]
  · rfl

/-! ### The scan and the table -/

theorem find?_able (unmarked : ∀ registration ∈ registrations, Unmarked registration.pathname)
    (method path : String) :
    (Scan.able registrations method path).find? (Scan.isItself ·.pathname path) =
      registrations.find? fun registration =>
        itself path ∈ Pattern.ofPathname registration.pathname ∧
          registration.verbs.allows method = true := by
  rw [Scan.able, Scan.matching, List.find?_filter, List.find?_filter]
  refine List.find?_congr fun registration member => ?_
  rw [Bool.eq_iff_iff]
  simp only [decide_eq_true_eq]
  rw [itself_mem (unmarked registration member)]
  tauto

theorem below_iff {registration : Registration α} (unmarked : Unmarked registration.pathname)
    (method path beginning : String) :
    Below method path registration beginning ↔
      Scan.beginning registration.pathname = beginning ∧
        Scan.isBelow registration.pathname path = true ∧
          registration.verbs.allows method = true := by
  constructor
  · rintro ⟨pattern, starts, allows⟩
    obtain rfl := (below_mem unmarked beginning).mp pattern
    exact ⟨rfl, starts, allows⟩
  · rintro ⟨rfl, starts, allows⟩
    exact ⟨(below_mem unmarked _).mpr rfl, starts, allows⟩

theorem able_below (method path : String) :
    (Scan.able registrations method path).filter (Scan.isBelow ·.pathname path) =
      registrations.filter fun registration =>
        Scan.isBelow registration.pathname path ∧ registration.verbs.allows method = true := by
  rw [Scan.able, Scan.matching, List.filter_filter, List.filter_filter]
  refine List.filter_congr fun registration _ => ?_
  rw [Bool.eq_iff_iff]
  simp only [Bool.and_eq_true, decide_eq_true_eq]
  tauto

theorem longest?_able (unmarked : ∀ registration ∈ registrations, Unmarked registration.pathname)
    (method path : String) :
    ((sortBelow (groups registrations)).filter fun entry =>
      Text.startsWith path entry.1).findSome? (fun entry => Group.answer? entry.2 method) =
      (Scan.longest? <| (Scan.able registrations method path).filter
        (Scan.isBelow ·.pathname path)).map answerOf := by
  have searched := findSome?_sortBelow registrations method path
  rw [able_below]
  split at searched
  · rename_i nothing
    have empty : (registrations.filter fun registration => Scan.isBelow registration.pathname path ∧
        registration.verbs.allows method = true) = [] := by
      rw [List.filter_eq_nil_iff]
      intro registration given able
      rw [decide_eq_true_iff] at able
      exact searched registration given _
        ((below_iff (unmarked registration given) method path _).mpr ⟨rfl, able⟩)
    rw [nothing, empty]
    rfl
  · rename_i answer found
    obtain ⟨longest, registration, first, rfl, starts, most⟩ := searched
    have scanned : Scan.longest? (registrations.filter fun registration =>
        Scan.isBelow registration.pathname path ∧ registration.verbs.allows method = true) =
          some registration := by
      refine Scan.longest?_eq_some longest ?_ ?_
      · rw [List.find?_filter, ← first]
        refine List.find?_congr fun other member => ?_
        rw [Bool.eq_iff_iff]
        simp only [decide_eq_true_eq]
        rw [below_mem (unmarked other member)]
        constructor
        · rintro ⟨⟨_, allows⟩, same⟩
          exact ⟨same, allows⟩
        · rintro ⟨same, allows⟩
          rw [← same] at starts
          exact ⟨⟨starts, allows⟩, same⟩
      · intro other listed
        obtain ⟨member, below⟩ := List.mem_filter.mp listed
        rw [decide_eq_true_iff] at below
        -- Of the beginnings of one path, the one with fewer bytes is a beginning of the other.
        have shorter := most other member _
          ((below_iff (unmarked other member) method path _).mpr ⟨rfl, below⟩)
        exact Text.prefix_of_utf8ByteSize_le below.1 starts shorter
    rw [found, scanned]
    rfl

theorem bind_exact (unmarked : ∀ registration ∈ registrations, Unmarked registration.pathname)
    (method path : String) :
    ((RouteSet.find? ((groups registrations).filterMap literalRoute?) path).bind
      fun (route, captured) => (Group.answer? route.value method).map fun answer =>
        Dispatched.found answer.chain (paramsOf captured)) =
      ((Scan.able registrations method path).find? (Scan.isItself ·.pathname path)).map
        fun registration => .found registration.chain [] := by
  rw [find?_exact_unmarked unmarked, find?_able unmarked]
  by_cases known : itself path ∈ patterns registrations
  · rw [if_pos known, Option.bind_some]
    dsimp only
    rw [answer?_groupOf, Option.map_map]
    rfl
  · have nothing : registrations.find? (fun registration =>
        itself path ∈ Pattern.ofPathname registration.pathname ∧
          registration.verbs.allows method = true) = none := by
      rw [List.find?_eq_none]
      intro registration member chosen
      rw [decide_eq_true_iff] at chosen
      exact known (mem_patterns.mpr ⟨registration, member, chosen.1⟩)
    rw [if_neg known, nothing]
    rfl

theorem matched_iff (unmarked : ∀ registration ∈ registrations, Unmarked registration.pathname)
    (path : String) :
    (RouteSet.find? ((groups registrations).filterMap literalRoute?) path).isSome ∨
      ((sortBelow (groups registrations)).filter fun entry =>
        Text.startsWith path entry.1).map Prod.snd ≠ [] ↔
      (Scan.matching registrations path).isEmpty = false := by
  rw [find?_exact_unmarked unmarked, List.isEmpty_eq_false_iff_exists_mem]
  constructor
  · rintro (found | some)
    · split at found
      · rename_i known
        obtain ⟨registration, member, own⟩ := mem_patterns.mp known
        refine ⟨registration, List.mem_filter.mpr ⟨member, decide_eq_true (.inl ?_)⟩⟩
        exact (itself_mem (unmarked registration member) path).mp own
      · cases found
    · obtain ⟨group, listed⟩ := List.exists_mem_of_ne_nil _ some
      obtain ⟨⟨beginning, _⟩, kept, _⟩ := List.mem_map.mp listed
      obtain ⟨held, starts⟩ := List.mem_filter.mp kept
      obtain ⟨registration, member, own⟩ := mem_patterns.mp (mem_sortBelow.mp held).1
      refine ⟨registration, List.mem_filter.mpr ⟨member, decide_eq_true (.inr ?_)⟩⟩
      rw [← (below_mem (unmarked registration member) beginning).mp own] at starts
      exact starts
  · rintro ⟨registration, listed⟩
    obtain ⟨member, about⟩ := List.mem_filter.mp listed
    rcases of_decide_eq_true about with alone | below
    · have own := (itself_mem (unmarked registration member) path).mpr alone
      rw [if_pos (mem_patterns.mpr ⟨registration, member, own⟩)]
      exact .inl rfl
    · have own := (below_mem (unmarked registration member) _).mpr rfl
      have held := mem_sortBelow.mpr ⟨mem_patterns.mpr ⟨registration, member, own⟩, rfl⟩
      refine .inr (List.ne_nil_of_mem (List.mem_map.mpr ⟨_, List.mem_filter.mpr ⟨held, ?_⟩, rfl⟩))
      exact below

theorem lookup_unmarked {hostname : String} {port : UInt16} {table : HostTable α}
    (built : build hostname port registrations = .ok table)
    (unmarked : ∀ registration ∈ registrations, Unmarked registration.pathname)
    (method path : String) :
    table.lookup method path = Scan.lookup registrations method path := by
  obtain ⟨inserted, sorted⟩ := build_eq_ok built
  rw [foldlM_groups_unmarked hostname port unmarked] at inserted
  have exact := Except.ok.inj inserted
  unfold HostTable.lookup Scan.lookup
  dsimp only
  have below : (table.belowOf path).findSome? (Group.answer? · method) =
      (Scan.longest? <| (Scan.able registrations method path).filter
        (Scan.isBelow ·.pathname path)).map answerOf := by
    rw [belowOf, sorted, List.findSome?_map]
    exact longest?_able unmarked method path
  have matched := matched_iff unmarked path
  rw [← sorted, exact] at matched
  have own := bind_exact unmarked method path
  rw [exact] at own
  rw [own, below]
  cases (Scan.able registrations method path).find? (Scan.isItself ·.pathname path) with
  | some registration => rfl
  | none =>
      cases Scan.longest? ((Scan.able registrations method path).filter
          (Scan.isBelow ·.pathname path)) with
      | some registration => rfl
      | none =>
          cases empty : (Scan.matching registrations path).isEmpty with
          | false => exact if_pos (matched.mpr empty)
          | true =>
              refine if_neg fun some => ?_
              rw [matched.mp some] at empty
              cases empty

end Unmarked

end HostTable

/-- Without parameters a table can be built, and it answers every request as a scan through
the registrations selected for the request does. -/
theorem Table.lookup_eq_scan {registrations : List (Registration α)}
    (unmarked : ∀ registration ∈ registrations, Unmarked registration.pathname) :
    ∃ table, Table.build registrations = .ok table ∧
      ∀ host port method path, table.lookup host port method path =
        Scan.lookup (selected registrations host port) method path := by
  have hostsBuilt : ∀ key, ∃ served, HostTable.build key.1 key.2
      (registrations.filter (keyOf · = key)) = .ok served := by
    intro key
    exact HostTable.build_unmarked key.1 key.2 fun registration member =>
      unmarked registration (List.mem_of_mem_filter member)
  obtain ⟨table, built⟩ := build_ok_of_forall hostsBuilt
  refine ⟨table, built, ?_⟩
  intro host port method path
  have given := hostTable?_selected built host port
  unfold Table.lookup
  cases served : table.hostTable? host port with
  | none =>
      rw [served] at given
      dsimp only at given ⊢
      rw [given]
      rfl
  | some hostTable =>
      rw [served] at given
      obtain ⟨declared, hostBuilt⟩ := given
      refine HostTable.lookup_unmarked hostBuilt ?_ method path
      intro registration member
      exact unmarked registration (List.mem_of_mem_filter (List.mem_of_mem_filter member))

def overlapping : List (Registration Nat) :=
  [⟨"Example.org", 80, "/a", .every, [1]⟩, ⟨"example.org", 80, "/a/", .single .post, [2]⟩,
    ⟨"example.org", 80, "/a*", .every, [3]⟩, ⟨"example.org", 80, "/b\x7b", .single .post, [4]⟩,
    ⟨"example.org", 8080, "", .every, [5]⟩]

theorem Table.lookup_overlapping :
    (∀ registration ∈ overlapping, Unmarked registration.pathname) ∧
      ∃ table, Table.build overlapping = .ok table ∧
        table.lookup "EXAMPLE.org:80" none "GET" "/a/x" = .found [1] [] ∧
        table.lookup "example.org" none "POST" "/a/" = .found [2] [] ∧
        table.lookup "example.org" none "GET" "/ab" = .found [3] [] ∧
        table.lookup "example.org" none "GET" "/b\x7b" = .methodNotAllowed ∧
        table.lookup "example.org" none "GET" "/c" = .notFound ∧
        table.lookup "example.org" (some 8080) "GET" "/c" = .found [5] [] := by
  have unmarked : ∀ registration ∈ overlapping, Unmarked registration.pathname := by decide
  obtain ⟨table, built, answers⟩ := Table.lookup_eq_scan unmarked
  refine ⟨unmarked, table, built, ?_⟩
  rw [answers, answers, answers, answers, answers, answers]
  decide +kernel

end VirtualHosts.Dispatch
