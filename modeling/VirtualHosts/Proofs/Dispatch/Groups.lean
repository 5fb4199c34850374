/-
What the table of one host and port is made of.

Every pattern has one group: what is answered by the registrations with that pattern, in
the order of the registrations.  A search for a beginning stops at the longest one whose
group allows the method.
-/

import VirtualHosts.Proofs.Dispatch.Patterns
import VirtualHosts.Proofs.Sequence

namespace VirtualHosts.Dispatch

variable {α : Type}

namespace HostTable

def answerOf (registration : Registration α) : Answer α :=
  ⟨registration.verbs, registration.chain⟩

def patterns (registrations : List (Registration α)) : List Pattern :=
  registrations.flatMap (Pattern.ofPathname ·.pathname)

def groupOf (registrations : List (Registration α)) (pattern : Pattern) : Group α :=
  (registrations.filter (pattern ∈ Pattern.ofPathname ·.pathname)).map answerOf

theorem mem_patterns {registrations : List (Registration α)} {pattern : Pattern} :
    pattern ∈ patterns registrations ↔
      ∃ registration ∈ registrations, pattern ∈ Pattern.ofPathname registration.pathname :=
  List.mem_flatMap

theorem filter_pairs (registration : Registration α) (pattern : Pattern) :
    ((((Pattern.ofPathname registration.pathname).map fun own =>
      (own, answerOf registration)).filter (·.1 = pattern)).map Prod.snd) =
        if pattern ∈ Pattern.ofPathname registration.pathname then [answerOf registration]
        else [] := by
  have single : (Pattern.ofPathname registration.pathname).filter (· = pattern) =
      if pattern ∈ Pattern.ofPathname registration.pathname then [pattern] else [] := by
    rw [List.filter_eq, (Pattern.nodup_ofPathname registration.pathname).count]
    split <;> rfl
  rw [List.filter_map, List.map_map]
  simp only [Function.comp_def]
  rw [single]
  split <;> rfl

theorem groups_eq (registrations : List (Registration α)) :
    groups registrations = (patterns registrations).eraseDups.map fun pattern =>
      (pattern, groupOf registrations pattern) := by
  have members (pattern : Pattern) : ((registrations.flatMap fun registration =>
      (Pattern.ofPathname registration.pathname).map fun own =>
        (own, answerOf registration)).filter (·.1 = pattern)).map Prod.snd =
          groupOf registrations pattern := by
    rw [List.filter_flatMap, List.map_flatMap]
    simp only [filter_pairs]
    rw [groupOf]
    induction registrations with
    | nil => rfl
    | cons first rest ih =>
        rw [List.flatMap_cons, ih, List.filter_cons]
        by_cases member : pattern ∈ Pattern.ofPathname first.pathname
        · simp [member]
        · simp [member]
  have keys : (registrations.flatMap fun registration =>
      (Pattern.ofPathname registration.pathname).map fun own =>
        (own, answerOf registration)).map Prod.fst = patterns registrations := by
    rw [List.map_flatMap]
    simp only [List.map_map, Function.comp_def, List.map_id', patterns]
  have gathered := gather_eq (registrations.flatMap fun registration =>
    (Pattern.ofPathname registration.pathname).map fun own => (own, answerOf registration))
  rw [keys] at gathered
  simp only [members] at gathered
  exact gathered

theorem map_fst_groups (registrations : List (Registration α)) :
    (groups registrations).map Prod.fst = (patterns registrations).eraseDups := by
  rw [groups_eq, List.map_map]
  exact List.map_id _

theorem answer?_groupOf (registrations : List (Registration α)) (pattern : Pattern)
    (method : String) :
    Group.answer? (groupOf registrations pattern) method =
      (registrations.find? fun registration =>
        pattern ∈ Pattern.ofPathname registration.pathname ∧
          registration.verbs.allows method = true).map answerOf := by
  rw [Group.answer?, groupOf, List.find?_map, List.find?_filter]
  congr 1
  congr 1
  funext registration
  simp [answerOf]

theorem exists_of_answer? {registrations : List (Registration α)} {pattern : Pattern}
    {method : String} {answer : Answer α}
    (given : Group.answer? (groupOf registrations pattern) method = some answer) :
    ∃ registration ∈ registrations, pattern ∈ Pattern.ofPathname registration.pathname ∧
      registration.verbs.allows method = true ∧ registration.chain = answer.chain := by
  rw [answer?_groupOf, Option.map_eq_some_iff] at given
  obtain ⟨registration, first, rfl⟩ := given
  have chosen := List.find?_some first
  obtain ⟨known, allows⟩ := of_decide_eq_true chosen
  exact ⟨registration, List.mem_of_find?_eq_some first, known, allows, rfl⟩

theorem build_eq_ok {hostname : String} {port : UInt16} {registrations : List (Registration α)}
    {table : HostTable α} (built : build hostname port registrations = .ok table) :
    (groups registrations).foldlM (insertExact hostname port) [] = .ok table.exact ∧
      table.below = sortBelow (groups registrations) := by
  unfold build at built
  dsimp only at built
  cases inserted : (groups registrations).foldlM (insertExact hostname port) [] with
  | error failure =>
      rw [inserted] at built
      cases built
  | ok exact =>
      rw [inserted] at built
      cases built
      exact ⟨rfl, rfl⟩

/-! ### Beginnings -/

theorem mem_sortBelow {registrations : List (Registration α)} {beginning : String}
    {group : Group α} : (beginning, group) ∈ sortBelow (groups registrations) ↔
      .below beginning ∈ patterns registrations ∧
        group = groupOf registrations (.below beginning) := by
  rw [sortBelow, List.mem_mergeSort, List.mem_filterMap, groups_eq]
  constructor
  · rintro ⟨entry, member, kept⟩
    obtain ⟨pattern, known, rfl⟩ := List.mem_map.mp member
    cases pattern with
    | exact text => cases kept
    | below other =>
        cases kept
        exact ⟨List.mem_eraseDups.mp known, rfl⟩
  · rintro ⟨known, rfl⟩
    exact ⟨(.below beginning, groupOf registrations (.below beginning)),
      List.mem_map.mpr ⟨.below beginning, List.mem_eraseDups.mpr known, rfl⟩, rfl⟩

theorem sortBelow_pairwise (groups : List (Pattern × Group α)) :
    (sortBelow groups).Pairwise fun longer shorter =>
      shorter.1.utf8ByteSize ≤ longer.1.utf8ByteSize := by
  refine (List.pairwise_mergeSort ?_ ?_ _).imp ?_
  · intro first second third
    simp only [decide_eq_true_eq]
    omega
  · intro first second
    simp only [Bool.or_eq_true, decide_eq_true_eq]
    omega
  · intro longer shorter ordered
    exact of_decide_eq_true ordered

/-- Whether a registration answers a path below a beginning, and allows the method. -/
structure Below (method path : String) (registration : Registration α) (beginning : String) :
    Prop where
  pattern : .below beginning ∈ Pattern.ofPathname registration.pathname
  starts : Text.startsWith path beginning = true
  allows : registration.verbs.allows method = true

/-- The search through the beginnings of a path fails only if no registration is able to
answer.  Otherwise it gives the first with the longest beginning that one of them has. -/
theorem findSome?_sortBelow (registrations : List (Registration α)) (method path : String) :
    match ((sortBelow (groups registrations)).filter fun entry =>
      Text.startsWith path entry.1).findSome? fun entry => Group.answer? entry.2 method with
    | none => ∀ registration ∈ registrations, ∀ beginning,
        ¬Below method path registration beginning
    | some answer => ∃ longest registration,
        (registrations.find? fun registration =>
          .below longest ∈ Pattern.ofPathname registration.pathname ∧
            registration.verbs.allows method = true) = some registration ∧
          answer = answerOf registration ∧ Text.startsWith path longest = true ∧
          ∀ other ∈ registrations, ∀ beginning, Below method path other beginning →
            beginning.utf8ByteSize ≤ longest.utf8ByteSize := by
  have listed {registration : Registration α} (member : registration ∈ registrations)
      {beginning : String} (below : Below method path registration beginning) :
      (beginning, groupOf registrations (.below beginning)) ∈
        (sortBelow (groups registrations)).filter fun entry => Text.startsWith path entry.1 := by
    have known := mem_patterns.mpr ⟨registration, member, below.pattern⟩
    exact List.mem_filter.mpr ⟨mem_sortBelow.mpr ⟨known, rfl⟩, below.starts⟩
  have answered {registration : Registration α} (member : registration ∈ registrations)
      {beginning : String} (below : Below method path registration beginning) :
      Group.answer? (groupOf registrations (.below beginning)) method ≠ none := by
    rw [answer?_groupOf]
    intro nothing
    have refused := List.find?_eq_none.mp (Option.map_eq_none_iff.mp nothing) registration member
    exact refused (decide_eq_true ⟨below.pattern, below.allows⟩)
  split
  · rename_i nothing
    intro registration member beginning below
    exact answered member below (List.findSome?_eq_none_iff.mp nothing _ (listed member below))
  · rename_i answer found
    obtain ⟨before, entry, after, parts, given, passed⟩ := List.findSome?_eq_some_iff.mp found
    obtain ⟨longest, group⟩ := entry
    have member : (longest, group) ∈ (sortBelow (groups registrations)).filter fun entry =>
        Text.startsWith path entry.1 := by
      rw [parts]
      exact List.mem_append_right _ List.mem_cons_self
    obtain ⟨kept, starts⟩ := List.mem_filter.mp member
    obtain ⟨_, rfl⟩ := mem_sortBelow.mp kept
    rw [answer?_groupOf] at given
    obtain ⟨registration, first, rfl⟩ := Option.map_eq_some_iff.mp given
    refine ⟨longest, registration, first, rfl, starts, ?_⟩
    intro other otherMember beginning below
    have position := listed otherMember below
    rw [parts] at position
    rcases List.mem_append.mp position with earlier | later
    · exact absurd (passed _ earlier) (answered otherMember below)
    · rcases List.mem_cons.mp later with same | later
      · exact Nat.le_of_eq (congrArg String.utf8ByteSize (Prod.mk.inj same).1)
      · -- Behind the entry that was found stand beginnings that are not longer.
        have sorted := (sortBelow_pairwise (groups registrations)).filter
          fun entry => Text.startsWith path entry.1
        rw [parts] at sorted
        exact (List.pairwise_cons.mp (List.pairwise_append.mp sorted).2.1).1 _ later

end HostTable

end VirtualHosts.Dispatch
