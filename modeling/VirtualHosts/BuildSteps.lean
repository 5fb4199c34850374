/-
Builders: named sets of steps that run side by side.

The steps are asked in turn, round after round.  A step with `pending` rounds
before it ends in the round after those.  The first failure ends the build at
once, so that steps later in the same round are not asked any more.
-/

namespace VirtualHosts

structure BuildStep where
  pending : Nat
  failure : Option String
  deriving DecidableEq, Repr

structure Builder where
  name : String
  verbose : Bool
  steps : List BuildStep
  deriving DecidableEq, Repr

inductive BuildError where
  | noSteps
  | step (index : Nat) (message : String)
  deriving DecidableEq, Repr

def BuildError.message : BuildError → String
  | .noSteps => "There are no steps to process"
  | .step index message => s!"Step {index} failed: {message}"

namespace Builder

/-- One round over the unfinished steps: the numbers of the steps that end in
it, and the failure that cut it short or the steps that are still unfinished. -/
def round : List (Nat × BuildStep) → List Nat × Except BuildError (List (Nat × BuildStep))
  | [] => ([], .ok [])
  | (index, step) :: rest =>
      match step.pending, step.failure with
      | waits + 1, _ =>
          let (ended, left) := round rest
          (ended, left.map ((index, { step with pending := waits }) :: ·))
      | 0, some message => ([index], .error (.step index message))
      | 0, none =>
          let (ended, left) := round rest
          (index :: ended, left)

def rounds : Nat → List (Nat × BuildStep) → List Nat × Except BuildError Unit
  | 0, _ => ([], .ok ())
  | _ + 1, [] => ([], .ok ())
  | more + 1, steps =>
      match round steps with
      | (ended, .error error) => (ended, .error error)
      | (ended, .ok left) =>
          let (later, result) := rounds more left
          (ended ++ later, result)

/-- The numbers of the steps that end, in that order, and the result.  No step
waits longer than the longest, which bounds the rounds.

Rounds describe builders of up to 30 steps.  With more, the steps are asked in the
order in which they were woken, which is not told here. -/
def build (builder : Builder) : List Nat × Except BuildError Unit :=
  match builder.steps with
  | [] => ([], .error .noSteps)
  | steps =>
      rounds ((steps.map BuildStep.pending).foldl max 0 + 1)
        ((List.range' 1 steps.length).zip steps)

end Builder

end VirtualHosts
