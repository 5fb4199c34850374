/-
Builds told without rounds.

The steps that end in one round are those that wait for as many rounds, in the order of their
numbers.  Round after round, the steps of a build end in the order of their waiting and, where
they wait equally long, of their numbers.  The build goes along that order up to the first
failure.
-/

import Mathlib.Data.List.Induction
import Mathlib.Data.List.Perm.Basic
import VirtualHosts.BuildSteps

namespace VirtualHosts.Builder

/-- The steps of a builder, numbered from one. -/
def numbered (builder : Builder) : List (Nat × BuildStep) :=
  (List.range' 1 builder.steps.length).zip builder.steps

/-- Whether a step ends in front of another: it waits for fewer rounds, or for as many and has
the smaller number. -/
def EndsBefore (earlier later : Nat × BuildStep) : Prop :=
  earlier.2.pending < later.2.pending ∨
    earlier.2.pending = later.2.pending ∧ earlier.1 < later.1

/-! ### Up to the first failure -/

/-- Steps that end in a row: they are taken up to the first that fails. -/
def upToFailure : List (Nat × BuildStep) → List Nat × Except BuildError Unit
  | [] => ([], .ok ())
  | (index, step) :: rest =>
      match step.failure with
      | some message => ([index], .error (.step index message))
      | none => (index :: (upToFailure rest).1, (upToFailure rest).2)

theorem upToFailure_append_of_error {front : List (Nat × BuildStep)} {failure : BuildError}
    (failed : (upToFailure front).2 = .error failure) (rest : List (Nat × BuildStep)) :
    upToFailure (front ++ rest) = upToFailure front := by
  induction front with
  | nil => cases failed
  | cons entry front ih =>
      obtain ⟨index, step⟩ := entry
      rw [List.cons_append, upToFailure, upToFailure]
      rw [upToFailure] at failed
      cases fails : step.failure with
      | some message => rfl
      | none =>
          rw [fails] at failed
          dsimp only
          rw [ih failed]

theorem upToFailure_append_of_ok {front : List (Nat × BuildStep)}
    (ended : (upToFailure front).2 = .ok ()) (rest : List (Nat × BuildStep)) :
    upToFailure (front ++ rest) =
      ((upToFailure front).1 ++ (upToFailure rest).1, (upToFailure rest).2) := by
  induction front with
  | nil => rfl
  | cons entry front ih =>
      obtain ⟨index, step⟩ := entry
      rw [List.cons_append, upToFailure, upToFailure]
      rw [upToFailure] at ended
      cases fails : step.failure with
      | some message =>
          rw [fails] at ended
          cases ended
      | none =>
          rw [fails] at ended
          dsimp only
          rw [ih ended]
          rfl

/-- A row without failures is taken to its end. -/
theorem upToFailure_of_sound {steps : List (Nat × BuildStep)}
    (sound : ∀ entry ∈ steps, entry.2.failure = none) :
    upToFailure steps = (steps.map Prod.fst, .ok ()) := by
  induction steps with
  | nil => rfl
  | cons entry rest ih =>
      obtain ⟨index, step⟩ := entry
      obtain ⟨first, others⟩ := List.forall_mem_cons.mp sound
      have ends : step.failure = none := first
      rw [upToFailure, ends, ih others]
      rfl

/-- A row with a failure is taken up to the first. -/
theorem upToFailure_of_first {before after : List (Nat × BuildStep)} {index : Nat}
    {step : BuildStep} {message : String}
    (sound : ∀ entry ∈ before, entry.2.failure = none) (fails : step.failure = some message) :
    upToFailure (before ++ (index, step) :: after) =
      (before.map Prod.fst ++ [index], .error (.step index message)) := by
  have ended := upToFailure_of_sound sound
  rw [upToFailure_append_of_ok (by rw [ended]), ended, upToFailure, fails]

theorem sound_or_first (steps : List (Nat × BuildStep)) :
    (∀ entry ∈ steps, entry.2.failure = none) ∨
      ∃ before index step message after, steps = before ++ (index, step) :: after ∧
        (∀ entry ∈ before, entry.2.failure = none) ∧ step.failure = some message := by
  induction steps with
  | nil => exact .inl nofun
  | cons entry rest ih =>
      obtain ⟨index, step⟩ := entry
      cases fails : step.failure with
      | some message => exact .inr ⟨[], index, step, message, rest, rfl, nofun, fails⟩
      | none =>
          rcases ih with sound | ⟨before, number, failing, message, after, rfl, sound, failed⟩
          · exact .inl (List.forall_mem_cons.mpr ⟨fails, sound⟩)
          · exact .inr ⟨(index, step) :: before, number, failing, message, after, rfl,
              List.forall_mem_cons.mpr ⟨fails, sound⟩, failed⟩

/-! ### Rounds -/

/-- A step after a round that it has waited for. -/
def later (entry : Nat × BuildStep) : Nat × BuildStep :=
  (entry.1, { entry.2 with pending := entry.2.pending - 1 })

/-- The steps that end after as many rounds. -/
def endingAfter (rounds : Nat) (steps : List (Nat × BuildStep)) : List (Nat × BuildStep) :=
  steps.filter fun entry => decide (entry.2.pending = rounds)

/-- What a round leaves unfinished. -/
def unfinished (steps : List (Nat × BuildStep)) : List (Nat × BuildStep) :=
  (steps.filter fun entry => decide (entry.2.pending ≠ 0)).map later

theorem upToFailure_map_later (steps : List (Nat × BuildStep)) :
    upToFailure (steps.map later) = upToFailure steps := by
  induction steps with
  | nil => rfl
  | cons entry rest ih =>
      rw [List.map_cons, upToFailure, ih, upToFailure]
      rfl

/-- A round takes the steps that wait no more up to the first failure, and leaves the others. -/
theorem round_eq (steps : List (Nat × BuildStep)) :
    round steps = ((upToFailure (endingAfter 0 steps)).1,
      (upToFailure (endingAfter 0 steps)).2.map fun _ => unfinished steps) := by
  induction steps with
  | nil => rfl
  | cons entry rest ih =>
      obtain ⟨index, ⟨pending, failure⟩⟩ := entry
      rw [round, ih]
      cases pending with
      | succ waits =>
          have same : endingAfter 0 ((index, ⟨waits + 1, failure⟩) :: rest) =
              endingAfter 0 rest := rfl
          rw [same]
          cases (upToFailure (endingAfter 0 rest)).2 <;> rfl
      | zero =>
          have first : endingAfter 0 ((index, ⟨0, failure⟩) :: rest) =
              (index, ⟨0, failure⟩) :: endingAfter 0 rest := rfl
          rw [first, upToFailure]
          cases failure with
          | some message => rfl
          | none => cases (upToFailure (endingAfter 0 rest)).2 <;> rfl

/-- The steps that end within some rounds, round after round. -/
def endingWithin (rounds : Nat) (steps : List (Nat × BuildStep)) : List (Nat × BuildStep) :=
  (List.range rounds).flatMap fun round => endingAfter round steps

theorem endingAfter_unfinished (round : Nat) (steps : List (Nat × BuildStep)) :
    endingAfter round (unfinished steps) = (endingAfter (round + 1) steps).map later := by
  rw [endingAfter, unfinished, List.filter_map, List.filter_filter]
  congr 1
  apply List.filter_congr
  intro entry _
  have same : (entry.2.pending - 1 = round ∧ entry.2.pending ≠ 0) ↔
      entry.2.pending = round + 1 := by omega
  rw [Function.comp_apply, ← Bool.decide_and]
  exact decide_eq_decide.mpr same

theorem endingWithin_succ (rounds : Nat) (steps : List (Nat × BuildStep)) :
    endingWithin (rounds + 1) steps = endingAfter 0 steps ++
      (List.range rounds).flatMap fun round => endingAfter (round + 1) steps := by
  rw [endingWithin, List.range_succ_eq_map, List.flatMap_cons, List.flatMap_map]

theorem rounds_nil (rounds : Nat) : Builder.rounds rounds [] = ([], .ok ()) := by
  cases rounds <;> rfl

theorem rounds_succ (rounds : Nat) (steps : List (Nat × BuildStep)) :
    Builder.rounds (rounds + 1) steps =
      match round steps with
      | (ended, .error failure) => (ended, .error failure)
      | (ended, .ok left) =>
          (ended ++ (Builder.rounds rounds left).1, (Builder.rounds rounds left).2) := by
  cases steps with
  | nil =>
      rw [rounds_nil, round]
      dsimp only
      rw [rounds_nil]
      rfl
  | cons entry rest => rfl

/-- Round after round, a build goes along the steps in the order in which they end. -/
theorem rounds_eq (rounds : Nat) (steps : List (Nat × BuildStep)) :
    Builder.rounds rounds steps = upToFailure (endingWithin rounds steps) := by
  induction rounds generalizing steps with
  | zero => rfl
  | succ more ih =>
      have further : upToFailure (endingWithin more (unfinished steps)) = upToFailure
          ((List.range more).flatMap fun round => endingAfter (round + 1) steps) := by
        simp only [endingWithin, endingAfter_unfinished]
        rw [← List.map_flatMap, upToFailure_map_later]
      rw [rounds_succ, round_eq, endingWithin_succ]
      cases ended : (upToFailure (endingAfter 0 steps)).2 with
      | error failure =>
          rw [upToFailure_append_of_error ended]
          exact Prod.ext rfl ended.symm
      | ok _ =>
          rw [upToFailure_append_of_ok ended, ← further, ← ih]
          rfl

/-! ### The order -/

theorem endingWithin_perm (rounds : Nat) (steps : List (Nat × BuildStep)) :
    (endingWithin rounds steps).Perm
      (steps.filter fun entry => decide (entry.2.pending < rounds)) := by
  induction rounds with
  | zero => simp [endingWithin]
  | succ rounds ih =>
      have split : endingWithin (rounds + 1) steps =
          endingWithin rounds steps ++ endingAfter rounds steps := by
        rw [endingWithin, List.range_succ, List.flatMap_append, List.flatMap_singleton]
        rfl
      have soon : (steps.filter fun entry => decide (entry.2.pending < rounds + 1)).filter
          (fun entry => decide (entry.2.pending < rounds)) =
            steps.filter fun entry => decide (entry.2.pending < rounds) := by
        rw [List.filter_filter]
        apply List.filter_congr
        intro entry _
        rw [← Bool.decide_and, decide_eq_decide]
        omega
      have last : (steps.filter fun entry => decide (entry.2.pending < rounds + 1)).filter
          (fun entry => !decide (entry.2.pending < rounds)) = endingAfter rounds steps := by
        rw [List.filter_filter, endingAfter]
        apply List.filter_congr
        intro entry _
        rw [← decide_not, ← Bool.decide_and, decide_eq_decide]
        omega
      rw [split, ← last]
      refine (ih.append_right _).trans ?_
      rw [← soon]
      exact List.filter_append_perm _ _

theorem endingWithin_pairwise {steps : List (Nat × BuildStep)}
    (ascending : steps.Pairwise fun left right => left.1 < right.1) (rounds : Nat) :
    (endingWithin rounds steps).Pairwise EndsBefore := by
  rw [endingWithin, List.pairwise_flatMap]
  have waits {round : Nat} {entry : Nat × BuildStep} (member : entry ∈ endingAfter round steps) :
      entry.2.pending = round := of_decide_eq_true (List.mem_filter.mp member).2
  constructor
  · intro round _
    have within : (endingAfter round steps).Pairwise fun left right => left.1 < right.1 :=
      ascending.filter _
    refine within.imp_of_mem fun left right apart => ?_
    exact .inr ⟨(waits left).trans (waits right).symm, apart⟩
  · refine List.pairwise_lt_range.imp fun {sooner later} apart => ?_
    intro left first right second
    apply Or.inl
    rw [waits first, waits second]
    exact apart

theorem pending_le_longest (steps : List BuildStep) :
    ∀ step ∈ steps, step.pending ≤ (steps.map BuildStep.pending).foldl max 0 := by
  induction steps using List.reverseRecOn with
  | nil => exact nofun
  | append_singleton front last ih =>
      intro step member
      rw [List.map_append, List.foldl_append]
      rcases List.mem_append.mp member with earlier | atEnd
      · exact Nat.le_trans (ih step earlier) (Nat.le_max_left _ _)
      · rw [List.mem_singleton.mp atEnd]
        exact Nat.le_max_right _ _

theorem map_snd_numbered (builder : Builder) : builder.numbered.map Prod.snd = builder.steps := by
  rw [numbered, List.map_snd_zip (by simp)]

theorem numbered_ascending (builder : Builder) :
    builder.numbered.Pairwise fun left right => left.1 < right.1 := by
  have indices : (builder.numbered.map Prod.fst).Pairwise (· < ·) := by
    rw [numbered, List.map_fst_zip (by simp)]
    exact List.pairwise_lt_range' 1
  exact List.pairwise_map.mp indices

/-- The steps in the order in which they end when nothing fails. -/
def inTurn (builder : Builder) : List (Nat × BuildStep) :=
  endingWithin ((builder.steps.map BuildStep.pending).foldl max 0 + 1) builder.numbered

theorem inTurn_perm (builder : Builder) : builder.inTurn.Perm builder.numbered := by
  have all : (builder.numbered.filter fun entry => decide (entry.2.pending <
      (builder.steps.map BuildStep.pending).foldl max 0 + 1)) = builder.numbered := by
    rw [List.filter_eq_self]
    intro entry member
    have step : entry.2 ∈ builder.steps := by
      rw [← map_snd_numbered]
      exact List.mem_map_of_mem member
    exact decide_eq_true (Nat.lt_succ_of_le (pending_le_longest builder.steps entry.2 step))
  have perm := endingWithin_perm ((builder.steps.map BuildStep.pending).foldl max 0 + 1)
    builder.numbered
  rwa [all] at perm

theorem inTurn_pairwise (builder : Builder) : builder.inTurn.Pairwise EndsBefore :=
  endingWithin_pairwise (numbered_ascending builder) _

theorem build_eq (builder : Builder) : builder.build =
    if builder.steps = [] then ([], .error .noSteps) else upToFailure builder.inTurn := by
  rw [build]
  split
  · rename_i none
    rw [if_pos none]
  · rename_i steps some
    rw [if_neg some, rounds_eq]
    rfl

/-! ### Builds -/

/-- Builds one after the other.  Every one of them starts all steps anew. -/
def builds (builder : Builder) : Nat → List (List Nat × Except BuildError Unit)
  | 0 => []
  | times + 1 => builder.build :: builder.builds times

theorem builds_eq (builder : Builder) (times : Nat) :
    builder.builds times = List.replicate times builder.build := by
  induction times with
  | zero => rfl
  | succ times ih => rw [builds, ih, List.replicate_succ]

/-- The step that fails in front of every other that does. -/
structure FailsFirst (steps : List (Nat × BuildStep)) (entry : Nat × BuildStep) : Prop where
  member : entry ∈ steps
  fails : entry.2.failure ≠ none
  foremost : ∀ other ∈ steps, other.2.failure ≠ none → other = entry ∨ EndsBefore entry other

theorem EndsBefore.asymm {left right : Nat × BuildStep} (before : EndsBefore left right) :
    ¬EndsBefore right left := by
  unfold EndsBefore at before ⊢
  omega

theorem FailsFirst.unique {steps : List (Nat × BuildStep)} {left right : Nat × BuildStep}
    (first : FailsFirst steps left) (other : FailsFirst steps right) : left = right := by
  rcases first.foremost right other.member other.fails with same | before
  · exact same.symm
  · rcases other.foremost left first.member first.fails with same | behind
    · exact same
    · exact absurd behind before.asymm

theorem failsFirst_of_split {before after : List (Nat × BuildStep)} {entry : Nat × BuildStep}
    (ordered : (before ++ entry :: after).Pairwise EndsBefore)
    (sound : ∀ earlier ∈ before, earlier.2.failure = none) (fails : entry.2.failure ≠ none) :
    FailsFirst (before ++ entry :: after) entry where
  member := List.mem_append_right _ List.mem_cons_self
  fails := fails
  foremost := by
    intro other member failing
    rcases List.mem_append.mp member with earlier | later
    · exact absurd (sound other earlier) failing
    · rcases List.mem_cons.mp later with same | behind
      · exact .inl same
      · exact .inr ((List.pairwise_cons.mp (List.pairwise_append.mp ordered).2.1).1 other behind)

theorem FailsFirst.of_perm {left right : List (Nat × BuildStep)} {entry : Nat × BuildStep}
    (first : FailsFirst left entry) (perm : left.Perm right) : FailsFirst right entry where
  member := perm.mem_iff.mp first.member
  fails := first.fails
  foremost := fun other member => first.foremost other (perm.mem_iff.mpr member)

/-- How a build ends, and which steps have ended by then, given the order in which all of them
would. -/
structure Ends (builder : Builder) (order : List (Nat × BuildStep))
    (outcome : List Nat × Except BuildError Unit) : Prop where
  empty : builder.steps = [] → outcome = ([], .error .noSteps)
  succeeds : outcome.2 = .ok () ↔
    builder.steps ≠ [] ∧ ∀ step ∈ builder.steps, step.failure = none
  whole : outcome.2 = .ok () → outcome.1 = order.map Prod.fst
  fails : ∀ index message, outcome.2 = .error (.step index message) ↔
    ∃ step, FailsFirst builder.numbered (index, step) ∧ step.failure = some message
  upTo : ∀ index message, outcome.2 = .error (.step index message) → ∃ before step after,
    order = before ++ (index, step) :: after ∧ outcome.1 = before.map Prod.fst ++ [index]

theorem sound_iff (builder : Builder) : (∀ step ∈ builder.steps, step.failure = none) ↔
    ∀ entry ∈ builder.inTurn, entry.2.failure = none := by
  rw [← map_snd_numbered, List.forall_mem_map]
  simp only [builder.inTurn_perm.mem_iff]

theorem ends_of_empty {builder : Builder} (empty : builder.steps = []) :
    Ends builder builder.inTurn ([], .error .noSteps) where
  empty := fun _ => rfl
  succeeds := iff_of_false nofun fun both => both.1 empty
  whole := nofun
  fails := by
    intro index message
    refine iff_of_false nofun ?_
    rintro ⟨step, first, -⟩
    have member := first.member
    rw [numbered, empty] at member
    cases member
  upTo := nofun

theorem ends_of_sound {builder : Builder} (some : builder.steps ≠ [])
    (sound : ∀ entry ∈ builder.inTurn, entry.2.failure = none) :
    Ends builder builder.inTurn (builder.inTurn.map Prod.fst, .ok ()) where
  empty := fun none => absurd none some
  succeeds := iff_of_true rfl ⟨some, (sound_iff builder).mpr sound⟩
  whole := fun _ => rfl
  fails := by
    intro index message
    refine iff_of_false nofun ?_
    rintro ⟨step, first, -⟩
    exact first.fails (sound _ (builder.inTurn_perm.mem_iff.mpr first.member))
  upTo := nofun

theorem ends_of_first {builder : Builder} {before after : List (Nat × BuildStep)} {number : Nat}
    {failing : BuildStep} {text : String}
    (split : builder.inTurn = before ++ (number, failing) :: after)
    (sound : ∀ entry ∈ before, entry.2.failure = none) (fails : failing.failure = some text) :
    Ends builder builder.inTurn
      (before.map Prod.fst ++ [number], .error (.step number text)) := by
  have unsound : failing.failure ≠ none := by
    rw [fails]
    exact nofun
  have ordered := builder.inTurn_pairwise
  have perm := builder.inTurn_perm
  rw [split] at ordered perm
  have first : FailsFirst builder.numbered (number, failing) :=
    (failsFirst_of_split ordered sound unsound).of_perm perm
  have member : failing ∈ builder.steps := by
    rw [← map_snd_numbered]
    exact List.mem_map_of_mem first.member
  constructor
  · intro empty
    rw [empty] at member
    cases member
  · exact iff_of_false nofun fun both => unsound (both.2 failing member)
  · exact nofun
  · intro index message
    constructor
    · intro reported
      cases reported
      exact ⟨failing, first, fails⟩
    · rintro ⟨step, other, failed⟩
      cases first.unique other
      rw [fails] at failed
      cases failed
      rfl
  · intro index message reported
    cases reported
    exact ⟨before, failing, after, split, rfl⟩

theorem build_ends (builder : Builder) : Ends builder builder.inTurn builder.build := by
  rw [build_eq]
  by_cases empty : builder.steps = []
  · rw [if_pos empty]
    exact ends_of_empty empty
  · rw [if_neg empty]
    rcases sound_or_first builder.inTurn with
      sound | ⟨before, number, failing, text, after, split, sound, fails⟩
    · rw [upToFailure_of_sound sound]
      exact ends_of_sound empty sound
    · have ended : upToFailure (before ++ (number, failing) :: after) = _ :=
        upToFailure_of_first sound fails
      rw [← split] at ended
      rw [ended]
      exact ends_of_first split sound fails

/-- Every build of a builder, however often it is repeated, ends in the same way.  The steps end
in the order of their waiting, then of their numbers.  Without failures all of them do; otherwise
the build ends with the failing step that is the first in that order, and reports it. -/
theorem builds_end_in_turn (builder : Builder) (times : Nat) :
    ∃ order, order.Perm builder.numbered ∧ order.Pairwise EndsBefore ∧
      (builder.builds times).length = times ∧
      ∀ outcome ∈ builder.builds times, Ends builder order outcome := by
  refine ⟨builder.inTurn, builder.inTurn_perm, builder.inTurn_pairwise, ?_, ?_⟩
  · rw [builds_eq, List.length_replicate]
  · intro outcome built
    rw [builds_eq] at built
    rw [List.eq_of_mem_replicate built]
    exact build_ends builder

example :
    build ⟨"site", false, [⟨1, none⟩, ⟨0, none⟩, ⟨1, some "no disk"⟩, ⟨1, some "no name"⟩]⟩ =
      ([2, 1, 3], .error (.step 3 "no disk")) := by
  rfl

end VirtualHosts.Builder
