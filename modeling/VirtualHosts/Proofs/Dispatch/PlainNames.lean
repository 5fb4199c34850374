/-
Pathnames whose parameters have names without braces.

Their parameters are whole segments, so that no text is demanded behind one.
-/

import VirtualHosts.Proofs.Dispatch.Names

namespace VirtualHosts.Dispatch

def PlainNames (chars : List Char) : Prop :=
  ∀ segment ∈ Text.segments chars, namesParameter segment = true → segment.any isBrace = false

instance (chars : List Char) : Decidable (PlainNames chars) :=
  inferInstanceAs (Decidable (∀ segment ∈ Text.segments chars, namesParameter segment = true →
    segment.any isBrace = false))

theorem PlainNames.legible {chars : List Char} (plain : PlainNames chars) :
    ∀ name ∈ parameterNames chars, Legible name := by
  intro name member
  obtain ⟨some, segment⟩ := mem_parameterNames.mp member
  obtain ⟨first, rest, rfl⟩ := List.exists_cons_of_ne_nil some
  have unbraced := List.any_eq_false.mp (plain _ segment rfl)
  refine legible_of_unbraced fun c inName => ?_
  exact Bool.eq_false_iff.mpr (unbraced c (List.mem_cons_of_mem _ inName))

theorem GivenUp.demands {texts : List (List Char)} {segments other : List Segment}
    (given : GivenUp texts segments other) :
    ∃ before name after, .capture before name after ∈ other ∧ after ≠ [] := by
  induction given with
  | @here _ before _ _ otherName otherAfter _ _ _ _ longer _ =>
      refine ⟨before, otherName, otherAfter, List.mem_cons_self, ?_⟩
      rintro rfl
      exact Nat.not_lt_zero _ longer
  | later _ _ ih =>
      obtain ⟨before, name, after, member, some⟩ := ih
      exact ⟨before, name, after, List.mem_cons_of_mem _ member, some⟩

/-- No route is given up for one whose parameters are whole segments. -/
theorem not_givenUp_of_plainNames {chars : List Char} (plain : PlainNames chars)
    {other : List Segment} (read : routeOf? (.ofList (patternText chars)) = some other)
    {texts : List (List Char)} {segments : List Segment} : ¬GivenUp texts segments other := by
  intro given
  obtain ⟨before, name, after, member, some⟩ := given.demands
  rw [routeOf?_of_legible plain.legible read] at member
  obtain ⟨part, _, same⟩ := List.mem_map.mp member
  unfold segmentOf at same
  split at same
  · cases same
  · cases same
    exact some rfl
  · cases same

end VirtualHosts.Dispatch
