/-
The free lists of a pool over a run.

Frees and acquires are all that a run does to a pool.  A freed value stays until the
acquires of its kind since then outnumber the frees since then; the one that does so takes
it.  What stays is told by the events alone, and it is what the free lists hold.
-/

import Mathlib.Data.List.Infix
import Mathlib.Data.List.Induction
import VirtualHosts.Pool
import VirtualHosts.Proofs.Sequence

namespace VirtualHosts.PoolUse

variable {τ : Type} {types : Recycling τ}

/-! ### What a run does to the pool -/

inductive Event (types : Recycling τ) where
  | freed (value : types.Typed)
  | acquired (type : τ)

/-- How many of the events are frees of a kind. -/
def frees (kind : String) : List (Event types) → Nat
  | [] => 0
  | .freed value :: rest =>
      if types.kind value.type = kind then frees kind rest + 1 else frees kind rest
  | .acquired _ :: rest => frees kind rest

/-- How many of the events are acquires of a kind. -/
def acquires (kind : String) : List (Event types) → Nat
  | [] => 0
  | .freed _ :: rest => acquires kind rest
  | .acquired type :: rest =>
      if types.kind type = kind then acquires kind rest + 1 else acquires kind rest

def Event.kind : Event types → String
  | freed value => types.kind value.type
  | acquired type => types.kind type

/-- What a step does to the pool.  A slot that holds nothing frees nothing. -/
def event? (use : PoolUse types) : Step types → Option (Event types)
  | .acquire _ type => some (.acquired type)
  | .free slot => (use.held.lookup slot).map .freed
  | .change _ _ | .drop _ | .detach _ => none

/-- Whether a value of a kind, free before these events, is so after them: at no point the
acquires outnumber the frees. -/
def stays (kind : String) (since : List (Event types)) : Bool :=
  since.inits.all fun front => decide (acquires kind front ≤ frees kind front)

/-- The values that are freed under a kind and stay, in the order in which they are freed. -/
def unpopped (kind : String) : List (Event types) → List types.Typed
  | [] => []
  | .freed value :: since =>
      if types.kind value.type = kind ∧ stays kind since = true then
        value :: unpopped kind since
      else unpopped kind since
  | .acquired _ :: since => unpopped kind since

def freedUnder (kind : String) (events : List (Event types)) : List types.Typed :=
  events.filterMap fun
    | .freed value => if types.kind value.type = kind then some value else none
    | .acquired _ => none

section Runs

variable [DecidableEq τ]

def run (use : PoolUse types) (steps : List (Step types)) : PoolUse types :=
  steps.foldl (fun use step => (use.step step).2) use

/-- The steps of a run, each with what it starts from. -/
def moments (use : PoolUse types) : List (Step types) → List (PoolUse types × Step types)
  | [] => []
  | step :: rest => (use, step) :: moments (use.step step).2 rest

def events (use : PoolUse types) (steps : List (Step types)) : List (Event types) :=
  (use.moments steps).filterMap fun (before, step) => before.event? step

/-- What an acquire takes from the list of its kind: nothing if the list is empty. -/
def taken? (kind : String) (before : PoolUse types) (step : Step types) :
    Option types.Typed :=
  match before.event? step with
  | some (.acquired type) =>
      if types.kind type = kind then (before.pool.free kind).head? else none
  | some (.freed _) | none => none

/-- The values that the acquires of a kind take, one for each acquire that finds its list
non-empty. -/
def takenUnder (kind : String) (use : PoolUse types) (steps : List (Step types)) :
    List types.Typed :=
  (use.moments steps).filterMap fun (before, step) => before.taken? kind step

theorem run_concat (use : PoolUse types) (steps : List (Step types)) (last : Step types) :
    use.run (steps ++ [last]) = ((use.run steps).step last).2 := by
  simp only [run, List.foldl_append, List.foldl_cons, List.foldl_nil]

theorem moments_concat (use : PoolUse types) (steps : List (Step types)) (last : Step types) :
    use.moments (steps ++ [last]) = use.moments steps ++ [(use.run steps, last)] := by
  induction steps generalizing use with
  | nil => rfl
  | cons first rest ih =>
      rw [List.cons_append, moments, moments, ih, List.cons_append]
      rfl

theorem events_concat (use : PoolUse types) (steps : List (Step types)) (last : Step types) :
    use.events (steps ++ [last]) = use.events steps ++ ((use.run steps).event? last).toList := by
  rw [events, moments_concat, filterMap_concat, events]

theorem takenUnder_concat (kind : String) (use : PoolUse types) (steps : List (Step types))
    (last : Step types) : use.takenUnder kind (steps ++ [last]) =
      use.takenUnder kind steps ++ ((use.run steps).taken? kind last).toList := by
  rw [takenUnder, moments_concat, filterMap_concat, takenUnder]

/-! ### One step -/

omit [DecidableEq τ] in
theorem free_withFree (pool : Pool types) (kind other : String) (values : List types.Typed) :
    (pool.withFree other values).free kind = if kind = other then values else pool.free kind :=
  rfl

/-- All that a step can do to a free list: a free puts a value on the list of its kind, and an
acquire takes the latest from the list of its kind. -/
theorem free_step (use : PoolUse types) (step : Step types) (kind : String) :
    (use.step step).2.pool.free kind =
      match use.event? step with
      | none => use.pool.free kind
      | some (.freed value) =>
          if types.kind value.type = kind then value :: use.pool.free kind
          else use.pool.free kind
      | some (.acquired type) =>
          if types.kind type = kind then (use.pool.free kind).tail else use.pool.free kind := by
  cases step with
  | acquire slot type =>
      change (use.pool.withFree (types.kind type) (use.pool.free (types.kind type)).tail).free
        kind = _
      rw [free_withFree]
      by_cases same : types.kind type = kind
      · simp [event?, same]
      · simp [event?, same, Ne.symm same]
  | change slot change =>
      simp only [PoolUse.step, event?]
      cases use.held.lookup slot <;> rfl
  | free slot =>
      simp only [PoolUse.step, event?]
      cases use.held.lookup slot with
      | none => rfl
      | some value =>
          change (use.pool.withFree (types.kind value.type)
            (value :: use.pool.free (types.kind value.type))).free kind = _
          rw [free_withFree]
          by_cases same : types.kind value.type = kind
          · simp [same]
          · simp [same, Ne.symm same]
  | drop slot => rfl
  | detach slot => rfl

end Runs

/-! ### What stays -/

theorem frees_append (kind : String) (front rest : List (Event types)) :
    frees kind (front ++ rest) = frees kind front + frees kind rest := by
  induction front with
  | nil => simp [frees]
  | cons event front ih =>
      cases event with
      | freed value =>
          rw [List.cons_append, frees, frees, ih]
          split <;> omega
      | acquired type => exact ih

theorem acquires_append (kind : String) (front rest : List (Event types)) :
    acquires kind (front ++ rest) = acquires kind front + acquires kind rest := by
  induction front with
  | nil => simp [acquires]
  | cons event front ih =>
      cases event with
      | freed value => exact ih
      | acquired type =>
          rw [List.cons_append, acquires, acquires, ih]
          split <;> omega

theorem stays_iff (kind : String) (since : List (Event types)) : stays kind since = true ↔
    ∀ front, front <+: since → acquires kind front ≤ frees kind front := by
  simp only [stays, List.all_eq_true, List.mem_inits, decide_eq_true_eq]

theorem stays_concat (kind : String) (since : List (Event types)) (last : Event types) :
    stays kind (since ++ [last]) = true ↔ stays kind since = true ∧
      acquires kind (since ++ [last]) ≤ frees kind (since ++ [last]) := by
  simp only [stays_iff, List.prefix_concat_iff, or_imp, forall_and, forall_eq]
  exact and_comm

/-- An event that takes nothing of a kind takes no place there. -/
theorem stays_concat_of_acquires_eq_zero {kind : String} {last : Event types}
    (harmless : acquires kind [last] = 0) (since : List (Event types)) :
    stays kind (since ++ [last]) = stays kind since := by
  rw [Bool.eq_iff_iff, stays_concat, and_iff_left_iff_imp]
  intro kept
  have whole := (stays_iff kind since).mp kept since List.prefix_rfl
  rw [acquires_append, frees_append, harmless]
  exact Nat.le_trans whole (Nat.le_add_right _ _)

/-- The acquires that find nothing if the list of their kind is empty at first. -/
def unmet (kind : String) : List (Event types) → Nat
  | [] => 0
  | .freed value :: since =>
      if types.kind value.type = kind then unmet kind since - 1 else unmet kind since
  | .acquired type :: since =>
      if types.kind type = kind then unmet kind since + 1 else unmet kind since

theorem unmet_le_iff (kind : String) (since : List (Event types)) (spare : Nat) :
    unmet kind since ≤ spare ↔
      ∀ front, front <+: since → acquires kind front ≤ frees kind front + spare := by
  induction since generalizing spare with
  | nil => simp [unmet, acquires]
  | cons event since ih =>
      rw [forall_prefix_cons (Nat.zero_le _)]
      cases event with
      | freed value =>
          by_cases own : types.kind value.type = kind
          · simp only [unmet, acquires, frees, if_pos own]
            rw [Nat.sub_le_iff_le_add, ih]
            refine forall₂_congr fun front _ => ?_
            omega
          · simp only [unmet, acquires, frees, if_neg own]
            exact ih spare
      | acquired type =>
          by_cases own : types.kind type = kind
          · simp only [unmet, acquires, frees, if_pos own]
            cases spare with
            | zero =>
                refine iff_of_false (Nat.not_succ_le_zero _) fun every => ?_
                exact Nat.not_succ_le_zero _ (every [] List.nil_prefix)
            | succ spare =>
                rw [Nat.add_le_add_iff_right, ih]
                refine forall₂_congr fun front _ => ?_
                omega
          · simp only [unmet, acquires, frees, if_neg own]
            exact ih spare

theorem stays_iff_unmet (kind : String) (since : List (Event types)) :
    stays kind since = true ↔ unmet kind since = 0 := by
  rw [← Nat.le_zero, unmet_le_iff, stays_iff]
  simp

theorem length_unpopped (kind : String) (events : List (Event types)) :
    (unpopped kind events).length + acquires kind events =
      frees kind events + unmet kind events := by
  induction events with
  | nil => rfl
  | cons event since ih =>
      cases event with
      | freed value =>
          by_cases own : types.kind value.type = kind
          · by_cases kept : unmet kind since = 0
            · simp only [unpopped, acquires, frees, unmet, stays_iff_unmet, own, kept, true_and,
                if_true, List.length_cons]
              omega
            · simp only [unpopped, acquires, frees, unmet, stays_iff_unmet, own, kept, true_and,
                if_true, if_false]
              omega
          · simp only [unpopped, acquires, frees, unmet, own, false_and, if_false]
            exact ih
      | acquired type =>
          by_cases own : types.kind type = kind
          · simp only [unpopped, acquires, frees, unmet, if_pos own]
            omega
          · simp only [unpopped, acquires, frees, unmet, if_neg own]
            exact ih

theorem unpopped_concat_freed (kind : String) (events : List (Event types))
    (value : types.Typed) : unpopped kind (events ++ [.freed value]) =
      unpopped kind events ++ if types.kind value.type = kind then [value] else [] := by
  have alone : stays kind ([] : List (Event types)) = true := by
    simp [stays_iff_unmet, unmet]
  induction events with
  | nil =>
      by_cases own : types.kind value.type = kind
      · simp [unpopped, own, alone]
      · simp [unpopped, own]
  | cons event since ih =>
      cases event with
      | freed earlier =>
          rw [List.cons_append, unpopped, unpopped, stays_concat_of_acquires_eq_zero rfl, ih]
          split
          · rw [List.cons_append]
          · rfl
      | acquired type => exact ih

/-- An acquire takes the latest value that stays. -/
theorem unpopped_concat_acquired (kind : String) (events : List (Event types)) (type : τ) :
    unpopped kind (events ++ [.acquired type]) =
      if types.kind type = kind then (unpopped kind events).dropLast
      else unpopped kind events := by
  induction events with
  | nil => simp [unpopped]
  | cons event since ih =>
      cases event with
      | acquired other => exact ih
      | freed value =>
          rw [List.cons_append, unpopped, unpopped, ih]
          by_cases own : types.kind type = kind
          · -- The value loses its place to the new acquire exactly if nothing behind it is left.
            have counted := length_unpopped kind since
            have spared : stays kind (since ++ [.acquired type]) = true ↔
                stays kind since = true ∧ unpopped kind since ≠ [] := by
              rw [stays_concat, acquires_append, frees_append, ← List.length_pos_iff]
              refine and_congr_right fun kept => ?_
              rw [stays_iff_unmet] at kept
              simp only [acquires, frees, if_pos own]
              omega
            simp only [if_pos own, spared]
            by_cases kept : types.kind value.type = kind ∧ stays kind since = true
            · rw [if_pos kept]
              by_cases nothing : unpopped kind since = []
              · simp [nothing]
              · rw [if_pos ⟨kept.1, kept.2, nothing⟩, List.dropLast_cons_of_ne_nil nothing]
            · rw [if_neg kept, if_neg fun both => kept ⟨both.1, both.2.1⟩]
          · have harmless : acquires kind [(.acquired type : Event types)] = 0 := if_neg own
            rw [if_neg own, if_neg own, stays_concat_of_acquires_eq_zero harmless]

theorem length_freedUnder (kind : String) (events : List (Event types)) :
    (freedUnder kind events).length = frees kind events := by
  induction events with
  | nil => rfl
  | cons event rest ih =>
      cases event with
      | freed value =>
          by_cases own : types.kind value.type = kind
          · simpa [freedUnder, frees, own] using ih
          · simpa [freedUnder, frees, own] using ih
      | acquired type => exact ih

/-! ### The whole run -/

section Runs

variable [DecidableEq τ]

/-- A free list holds what stays, the latest first. -/
theorem free_run (kind : String) (steps : List (Step types)) :
    (({} : PoolUse types).run steps).pool.free kind =
      (unpopped kind (({} : PoolUse types).events steps)).reverse := by
  induction steps using List.reverseRecOn with
  | nil => rfl
  | append_singleton steps last ih =>
      rw [run_concat, free_step, events_concat, ih]
      cases (({} : PoolUse types).run steps).event? last with
      | none => simp
      | some event =>
          cases event with
          | freed value =>
              rw [Option.toList_some, unpopped_concat_freed, List.reverse_append]
              dsimp only
              split <;> rfl
          | acquired type =>
              rw [Option.toList_some, unpopped_concat_acquired]
              dsimp only
              split
              · rw [List.tail_reverse]
              · rfl

/-- The values freed under a kind are those that were taken and those that are free. -/
theorem freedUnder_perm (kind : String) (steps : List (Step types)) :
    (freedUnder kind (({} : PoolUse types).events steps)).Perm
      (takenUnder kind {} steps ++ (({} : PoolUse types).run steps).pool.free kind) := by
  induction steps using List.reverseRecOn with
  | nil => exact .refl _
  | append_singleton steps last ih =>
      rw [run_concat, free_step, events_concat, takenUnder_concat, taken?, freedUnder,
        List.filterMap_append, ← freedUnder]
      cases (({} : PoolUse types).run steps).event? last with
      | none => simpa using ih
      | some event =>
          cases event with
          | freed value =>
              by_cases own : types.kind value.type = kind
              · simp only [Option.toList_some, Option.toList_none, List.append_nil, own, if_true,
                  List.filterMap_cons, List.filterMap_nil]
                exact (List.perm_append_singleton _ _).trans
                  ((ih.cons value).trans List.perm_middle.symm)
              · simpa [own] using ih
          | acquired type =>
              by_cases own : types.kind type = kind
              · cases held : (({} : PoolUse types).run steps).pool.free kind with
                | nil => simpa [own, held] using ih
                | cons latest rest =>
                    rw [held] at ih
                    simpa [own] using ih
              · simpa [own] using ih

theorem available_run (kind : String) (steps : List (Step types)) :
    (({} : PoolUse types).run steps).pool.available kind + (takenUnder kind {} steps).length =
      frees kind (({} : PoolUse types).events steps) := by
  have counted := (freedUnder_perm kind steps).length_eq
  rw [length_freedUnder, List.length_append] at counted
  rw [counted, Pool.available, Nat.add_comm]

/-! ### What an acquire hands out -/

/-- An acquire of a type takes the latest value of its kind.  It hands it out, reset once, if it
has the type.  It hands out a fresh value if it has another, or if there is none. -/
theorem step_acquire (use : PoolUse types) (slot : String) (type : τ) :
    ∃ handed, (use.step (.acquire slot type)).1 = some ⟨type, handed⟩ ∧
      (use.step (.acquire slot type)).2.held.lookup slot = some ⟨type, handed⟩ ∧
      match use.pool.free (types.kind type) with
      | [] => handed = types.fresh type ∧
          (use.step (.acquire slot type)).2.pool.free (types.kind type) = []
      | latest :: rest =>
          (use.step (.acquire slot type)).2.pool.free (types.kind type) = rest ∧
            (∀ value, latest = ⟨type, value⟩ → handed = types.reset type value) ∧
            (latest.type ≠ type → handed = types.fresh type) := by
  have list := free_step use (.acquire slot type) (types.kind type)
  simp only [event?, if_true] at list
  refine ⟨(use.pool.acquire type).1, rfl, by simp [step], ?_⟩
  rw [list]
  unfold Pool.acquire
  cases use.pool.free (types.kind type) with
  | nil => exact ⟨rfl, rfl⟩
  | cons latest rest =>
      refine ⟨rfl, ?_, ?_⟩
      · rintro value rfl
        simp [Pool.recycle]
      · intro other
        simp [Pool.recycle, other]

/-- After every run on a new pool a free list holds the values that were freed under its kind
and stay, the latest first.  Every freed value was taken once or is free still, so that the list
is as long as the frees exceed the acquires that found something.  The next acquire takes the
head of its list, and no other step than a free or an acquire of its kind changes a list. -/
theorem pool_keeps_one_stack_per_kind (types : Recycling τ) (steps : List (Step types)) :
    let use := ({} : PoolUse types).run steps
    let events := ({} : PoolUse types).events steps
    (∀ kind, use.pool.free kind = (unpopped kind events).reverse ∧
      (freedUnder kind events).Perm (takenUnder kind {} steps ++ use.pool.free kind) ∧
      use.pool.available kind + (takenUnder kind {} steps).length = frees kind events) ∧
    (∀ slot type, ∃ handed, (use.step (.acquire slot type)).1 = some ⟨type, handed⟩ ∧
      (use.step (.acquire slot type)).2.held.lookup slot = some ⟨type, handed⟩ ∧
      match use.pool.free (types.kind type) with
      | [] => handed = types.fresh type ∧
          (use.step (.acquire slot type)).2.pool.free (types.kind type) = []
      | latest :: rest =>
          (use.step (.acquire slot type)).2.pool.free (types.kind type) = rest ∧
            (∀ value, latest = ⟨type, value⟩ → handed = types.reset type value) ∧
            (latest.type ≠ type → handed = types.fresh type)) ∧
    (∀ slot, (use.step (.drop slot)).2.pool = use.pool ∧
      (use.step (.detach slot)).2.pool = use.pool) ∧
    ∀ step kind, (∀ event, use.event? step = some event → event.kind ≠ kind) →
      (use.step step).2.pool.free kind = use.pool.free kind := by
  intro use events
  refine ⟨?_, step_acquire use, fun _ => ⟨rfl, rfl⟩, ?_⟩
  · intro kind
    exact ⟨free_run kind steps, freedUnder_perm kind steps, available_run kind steps⟩
  · intro step kind elsewhere
    rw [free_step]
    cases happens : use.event? step with
    | none => rfl
    | some event =>
        have apart := elsewhere event happens
        cases event with
        | freed value => exact if_neg apart
        | acquired type => exact if_neg apart

/-- Two types of one kind.  To reset a counter adds to it, so that every reset shows. -/
inductive Ticket where
  | counter
  | twin
  deriving DecidableEq

def tickets : Recycling Ticket where
  Item _ := Nat
  kind _ := "counter"
  fresh _ := 0
  reset _ value := value + 1000

def exchange : List (Step tickets) :=
  [.acquire "a" .counter, .change "a" fun _ _ => (7 : Nat), .acquire "b" .twin, .free "a",
    .free "b", .acquire "c" .counter, .drop "c"]

theorem pool_keeps_one_stack_per_kind_exchange :
    let use := ({} : PoolUse tickets).run exchange
    use.pool.free "counter" = [⟨.counter, (7 : Nat)⟩] ∧
      takenUnder "counter" {} exchange = [⟨.twin, (0 : Nat)⟩] ∧
      frees "counter" (({} : PoolUse tickets).events exchange) = 2 ∧
      (use.step (.acquire "d" .counter)).1 = some ⟨.counter, (1007 : Nat)⟩ ∧
      (use.step (.acquire "d" .twin)).1 = some ⟨.twin, (0 : Nat)⟩ := by
  intro use
  obtain ⟨lists, acquired, _, _⟩ := pool_keeps_one_stack_per_kind tickets exchange
  have free : use.pool.free "counter" = [⟨.counter, (7 : Nat)⟩] := (lists "counter").1.trans rfl
  have taken : takenUnder "counter" {} exchange = [⟨.twin, (0 : Nat)⟩] := rfl
  have counted := (lists "counter").2.2
  obtain ⟨again, handed, _, _, reset, _⟩ := acquired "d" .counter
  obtain ⟨other, given, _, _, _, lost⟩ := acquired "d" .twin
  refine ⟨free, taken, ?_, ?_, ?_⟩
  · rw [← counted, taken]
    rfl
  · rw [handed, reset (7 : Nat) rfl]
    rfl
  · rw [given, lost (by decide)]
    rfl

end Runs

end VirtualHosts.PoolUse
