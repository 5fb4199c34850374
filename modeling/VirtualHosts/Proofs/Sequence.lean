/-
Sequences as runs leave them behind.

A run over a list that may fail is a fold; what holds of it is shown for the items
already taken.  What a run has met is kept without repetition, in the order of the
first appearance, and what belongs together is gathered in that order.
-/

import Mathlib.Data.List.Forall2
import Mathlib.Data.List.Induction
import Mathlib.Data.List.Infix
import VirtualHosts.Dispatch.Table

namespace VirtualHosts

/-! ### Runs that may fail -/

theorem isOk_iff_exists {β ε : Type} (result : Except ε β) :
    result.isOk = true ↔ ∃ value, result = .ok value := by
  cases result with
  | error failure => simp [Except.isOk, Except.toBool]
  | ok value => simp [Except.isOk, Except.toBool]

theorem map_eq_ok_iff {β γ ε : Type} {f : β → γ} {result : Except ε β} {value : γ} :
    result.map f = .ok value ↔ ∃ inner, result = .ok inner ∧ f inner = value := by
  cases result with
  | error failure => simp [Except.map]
  | ok inner => simp [Except.map]

theorem bind_eq_ok_iff {β γ ε : Type} {f : β → Except ε γ} {result : Except ε β} {value : γ} :
    (result >>= f) = .ok value ↔ ∃ inner, result = .ok inner ∧ f inner = .ok value := by
  cases result with
  | error failure => simp [bind, Except.bind]
  | ok inner => simp [bind, Except.bind]

theorem bind_succeeds {β γ ε : Type} {f : β → Except ε γ} {result : Except ε β} {inner : β}
    (done : result = .ok inner) (further : ∃ value, f inner = .ok value) :
    ∃ value, (result >>= f) = .ok value := by
  rw [done]
  exact further

theorem mapError_eq_ok_iff {β ε φ : Type} {f : ε → φ} {result : Except ε β} {value : β} :
    result.mapError f = .ok value ↔ result = .ok value := by
  cases result with
  | error failure => simp [Except.mapError]
  | ok inner => simp [Except.mapError]

/-- What holds at the start, and of the items taken so far after every step that
succeeds, holds of all items when the run succeeds. -/
theorem foldlM_ok_induction {σ β ε : Type} {step : σ → β → Except ε σ}
    (motive : List β → σ → Prop) {start final : σ} {items : List β}
    (initial : motive [] start)
    (preserved : ∀ seen item before after, motive seen before →
      step before item = .ok after → motive (seen ++ [item]) after)
    (ran : items.foldlM step start = .ok final) : motive items final := by
  suffices general : ∀ (rest seen : List β) (state : σ), motive seen state →
      rest.foldlM step state = .ok final → motive (seen ++ rest) final from
    general items [] start initial ran
  intro rest
  induction rest with
  | nil =>
      intro seen state holds ended
      cases ended
      rw [List.append_nil]
      exact holds
  | cons item rest ih =>
      intro seen state holds ended
      rw [List.foldlM_cons] at ended
      cases stepped : step state item with
      | error failure =>
          rw [stepped] at ended
          cases ended
      | ok next =>
          rw [stepped] at ended
          have extended := ih (seen ++ [item]) next
            (preserved seen item state next holds stepped) ended
          rwa [List.append_assoc] at extended

theorem foldlM_concat_of_ok {σ β ε : Type} {step : σ → β → Except ε σ} {start state : σ}
    {items : List β} (ran : items.foldlM step start = .ok state) (last : β) :
    (items ++ [last]).foldlM step start = step state last := by
  rw [List.foldlM_append, ran]
  change List.foldlM step state [last] = step state last
  rw [List.foldlM_cons]
  cases step state last <;> rfl

/-- A run that fails has succeeded on the items in front of one, and fails there. -/
theorem foldlM_error_iff {σ β ε : Type} {step : σ → β → Except ε σ} {start : σ}
    {items : List β} {failure : ε} :
    items.foldlM step start = .error failure ↔
      ∃ before item after state, items = before ++ item :: after ∧
        before.foldlM step start = .ok state ∧ step state item = .error failure := by
  constructor
  · intro failed
    induction items generalizing start with
    | nil => cases failed
    | cons item items ih =>
        rw [List.foldlM_cons] at failed
        cases stepped : step start item with
        | error reason =>
            rw [stepped] at failed
            cases failed
            exact ⟨[], item, items, start, rfl, rfl, stepped⟩
        | ok next =>
            rw [stepped] at failed
            obtain ⟨before, stuck, after, state, rfl, ran, refused⟩ := ih failed
            refine ⟨item :: before, stuck, after, state, rfl, ?_, refused⟩
            rw [List.foldlM_cons, stepped]
            exact ran
  · rintro ⟨before, item, after, state, rfl, ran, refused⟩
    rw [List.foldlM_append, ran]
    change List.foldlM step state (item :: after) = .error failure
    rw [List.foldlM_cons, refused]
    rfl

/-- Where success at an item does not hang on the state, the whole run succeeds if every item
does. -/
theorem foldlM_ok_iff_forall {σ β ε : Type} {step : σ → β → Except ε σ} {accepted : β → Prop}
    (decides : ∀ state item, (∃ next, step state item = .ok next) ↔ accepted item)
    (start : σ) (items : List β) :
    (∃ final, items.foldlM step start = .ok final) ↔ ∀ item ∈ items, accepted item := by
  constructor
  · rintro ⟨final, ran⟩
    refine foldlM_ok_induction (fun seen _ => ∀ item ∈ seen, accepted item) (by simp) ?_ ran
    intro seen item before after holds stepped other member
    rw [List.mem_append, List.mem_singleton] at member
    rcases member with earlier | rfl
    · exact holds other earlier
    · exact (decides before other).mp ⟨after, stepped⟩
  · intro every
    cases ran : items.foldlM step start with
    | ok final => exact ⟨final, rfl⟩
    | error failure =>
        obtain ⟨before, item, after, state, rfl, _, refused⟩ := foldlM_error_iff.mp ran
        obtain ⟨next, stepped⟩ := (decides state item).mpr (every item (by simp))
        rw [refused] at stepped
        cases stepped

/-- A run of steps that each extend the state by one item extends it by all of them. -/
theorem foldlM_eq_ok_iff_of_step {σ β ε : Type} {step : σ → β → Except ε σ} {accepted : β → Prop}
    {extended : σ → List β → σ} (initial : ∀ state, extended state [] = state)
    (further : ∀ state item rest,
      extended (extended state [item]) rest = extended state (item :: rest))
    (decides : ∀ state item next,
      step state item = .ok next ↔ accepted item ∧ next = extended state [item])
    {start final : σ} {items : List β} :
    items.foldlM step start = .ok final ↔
      (∀ item ∈ items, accepted item) ∧ final = extended start items := by
  induction items generalizing start with
  | nil =>
      rw [List.foldlM_nil, initial]
      simp [pure, Except.pure, eq_comm]
  | cons item rest ih =>
      rw [List.foldlM_cons, bind_eq_ok_iff, List.forall_mem_cons]
      constructor
      · rintro ⟨next, stepped, ran⟩
        obtain ⟨first, rfl⟩ := (decides start item next).mp stepped
        obtain ⟨others, last⟩ := ih.mp ran
        exact ⟨⟨first, others⟩, by rw [last, further]⟩
      · rintro ⟨⟨first, others⟩, last⟩
        refine ⟨_, (decides start item _).mpr ⟨first, rfl⟩, ih.mpr ⟨others, ?_⟩⟩
        rw [last, further]

theorem mapM_eq_ok_iff {β γ ε : Type} {step : β → Except ε γ} {items : List β}
    {results : List γ} :
    items.mapM step = .ok results ↔
      List.Forall₂ (fun item result => step item = .ok result) items results := by
  induction items generalizing results with
  | nil =>
      rw [List.mapM_nil, List.forall₂_nil_left_iff]
      simp [pure, Except.pure, eq_comm]
  | cons item rest ih =>
      rw [List.mapM_cons, bind_eq_ok_iff, List.forall₂_cons_left_iff]
      constructor
      · rintro ⟨first, done, finished⟩
        obtain ⟨others, ran, same⟩ := bind_eq_ok_iff.mp finished
        cases same
        exact ⟨first, others, done, ih.mp ran, rfl⟩
      · rintro ⟨first, others, done, ran, rfl⟩
        exact ⟨first, done, bind_eq_ok_iff.mpr ⟨others, ih.mpr ran, rfl⟩⟩

theorem mapM_ok_of_forall {β γ ε : Type} {step : β → Except ε γ} {items : List β}
    (succeeds : ∀ item ∈ items, ∃ result, step item = .ok result) :
    ∃ results, items.mapM step = .ok results := by
  induction items with
  | nil => exact ⟨[], rfl⟩
  | cons item items ih =>
      obtain ⟨first, done⟩ := succeeds item List.mem_cons_self
      obtain ⟨others, ran⟩ := ih fun later member => succeeds later (List.mem_cons_of_mem _ member)
      refine ⟨first :: others, ?_⟩
      rw [List.mapM_cons, done, ran]
      rfl

theorem except_map_map {β γ δ ε : Type} (f : β → γ) (g : γ → δ) (result : Except ε β) :
    (result.map f).map g = result.map (g ∘ f) := by
  cases result <;> rfl

/-- A run stays beside another one if every step does. -/
theorem foldlM_map_of_step {σ τ β γ ε : Type} {step : σ → β → Except ε σ}
    {other : τ → γ → Except ε τ} {state : σ → τ} {item : β → γ}
    (beside : ∀ before next, other (state before) (item next) = (step before next).map state)
    (items : List β) (start : σ) :
    (items.map item).foldlM other (state start) = (items.foldlM step start).map state := by
  induction items generalizing start with
  | nil => rfl
  | cons first rest ih =>
      rw [List.map_cons, List.foldlM_cons, List.foldlM_cons, beside]
      cases step start first with
      | error failure => rfl
      | ok next => exact ih next

theorem find?_mapM_ok {β γ ε : Type} {step : β → Except ε γ} {items : List β}
    {results : List γ} (ran : items.mapM step = .ok results) (onItem : β → Bool)
    (onResult : γ → Bool)
    (agree : ∀ item result, step item = .ok result → onResult result = onItem item) :
    match items.find? onItem with
    | none => results.find? onResult = none
    | some item => ∃ result, step item = .ok result ∧ results.find? onResult = some result := by
  induction items generalizing results with
  | nil =>
      cases ran
      rfl
  | cons item items ih =>
      rw [List.mapM_cons] at ran
      cases done : step item with
      | error failure =>
          rw [done] at ran
          cases ran
      | ok first =>
          cases rest : items.mapM step with
          | error failure =>
              rw [done, rest] at ran
              cases ran
          | ok others =>
              rw [done, rest] at ran
              cases ran
              have same := agree item first done
              cases wanted : onItem item with
              | true =>
                  rw [wanted] at same
                  simp only [List.find?_cons_of_pos wanted]
                  exact ⟨first, done, List.find?_cons_of_pos same⟩
              | false =>
                  rw [wanted] at same
                  have later := ih rest
                  have itemPassed : ¬onItem item = true := by
                    rw [wanted]
                    exact Bool.false_ne_true
                  have firstPassed : ¬onResult first = true := by
                    rw [same]
                    exact Bool.false_ne_true
                  rw [List.find?_cons_of_neg itemPassed, List.find?_cons_of_neg firstPassed]
                  exact later

/-! ### The failure of a run -/

def failureOf {β ε : Type} : Except ε β → Option ε
  | .ok _ => none
  | .error failure => some failure

theorem failureOf_eq_some_iff {β ε : Type} {result : Except ε β} {failure : ε} :
    failureOf result = some failure ↔ result = .error failure := by
  cases result <;> simp [failureOf]

theorem failureOf_eq_none_iff {β ε : Type} {result : Except ε β} :
    failureOf result = none ↔ ∃ value, result = .ok value := by
  cases result <;> simp [failureOf]

/-- Results without their values differ by their failures alone. -/
theorem forgotten_eq_iff {β γ ε : Type} {left : Except ε β} {right : Except ε γ} :
    left.map (fun _ => ()) = right.map (fun _ => ()) ↔ failureOf left = failureOf right := by
  cases left <;> cases right <;> simp [Except.map, failureOf]

/-- Of two runs in turn the first failure counts, where the second does not fail by what the
first has come to. -/
theorem failureOf_bind {β γ ε : Type} {f : β → Except ε γ} {second : Option ε}
    (same : ∀ value, failureOf (f value) = second) (result : Except ε β) :
    failureOf (result >>= f) = (failureOf result).or second := by
  cases result with
  | error failure => rfl
  | ok value => exact same value

theorem failureOf_map {β γ ε : Type} (f : β → γ) (result : Except ε β) :
    failureOf (result.map f) = failureOf result := by
  cases result <;> rfl

theorem failureOf_bind_pure {β γ ε : Type} (f : β → γ) (result : Except ε β) :
    failureOf (do return f (← result)) = failureOf result :=
  failureOf_map f result

theorem failureOf_mapM {β γ ε : Type} (step : β → Except ε γ) (items : List β) :
    failureOf (items.mapM step) = items.findSome? fun item => failureOf (step item) := by
  induction items with
  | nil => rfl
  | cons item rest ih =>
      rw [List.mapM_cons, List.findSome?_cons, ← ih]
      cases step item with
      | error failure => rfl
      | ok first => cases rest.mapM step <;> rfl

/-- Two runs over the same items fail alike if they do so at every item. -/
theorem mapM_fails_alike {β γ δ ε : Type} {step : β → Except ε γ} {other : β → Except ε δ}
    (alike : ∀ item, (other item).map (fun _ => ()) = (step item).map fun _ => ())
    (items : List β) :
    (items.mapM other).map (fun _ => ()) = (items.mapM step).map fun _ => () := by
  simp only [forgotten_eq_iff] at alike ⊢
  rw [failureOf_mapM, failureOf_mapM]
  simp only [alike]

theorem failureOf_foldlM {σ β ε : Type} {step : σ → β → Except ε σ} {failing : β → Option ε}
    (same : ∀ state item, failureOf (step state item) = failing item) (items : List β)
    (start : σ) : failureOf (items.foldlM step start) = items.findSome? failing := by
  induction items generalizing start with
  | nil => rfl
  | cons item rest ih =>
      rw [List.foldlM_cons, failureOf_bind ih, same, List.findSome?_cons]
      cases failing item <;> rfl

/-! ### Runs on a state -/

/-- A run goes on from what its first part left. -/
theorem run_bind_of_run {σ β γ : Type} {action : StateM σ β} {next : β → StateM σ γ}
    {state after : σ} {value : β} (ran : action.run state = (value, after)) :
    (action >>= next).run state = (next value).run after := by
  rw [StateT.run_bind, ran]
  rfl

/-! ### The ends of a list -/

theorem filterMap_concat {β γ : Type} (read : β → Option γ) (items : List β) (last : β) :
    (items ++ [last]).filterMap read = items.filterMap read ++ (read last).toList := by
  rw [List.filterMap_append, List.filterMap_cons, List.filterMap_nil]
  cases read last <;> rfl

theorem forall_prefix_cons {β : Type} {holds : List β → Prop} (start : holds []) (first : β)
    (rest : List β) : (∀ front, front <+: first :: rest → holds front) ↔
      ∀ front, front <+: rest → holds (first :: front) := by
  simp only [List.prefix_cons_iff]
  constructor
  · intro every front before
    exact every _ (.inr ⟨front, rfl, before⟩)
  · intro every front before
    rcases before with rfl | ⟨others, rfl, before⟩
    · exact start
    · exact every others before

/-! ### First appearances -/

theorem find?_decide_eq {κ : Type} [DecidableEq κ] (items : List κ) (wanted : κ) :
    items.find? (decide <| · = wanted) = if wanted ∈ items then some wanted else none := by
  cases found : items.find? (decide <| · = wanted) with
  | none =>
      rw [if_neg]
      intro member
      exact List.find?_eq_none.mp found wanted member (decide_eq_true rfl)
  | some item =>
      have same := List.find?_some found
      rw [decide_eq_true_iff] at same
      subst same
      rw [if_pos (List.mem_of_find?_eq_some found)]

section FirstAppearances

variable {κ : Type} [BEq κ] [LawfulBEq κ]

theorem eraseDups_concat (items : List κ) (last : κ) :
    (items ++ [last]).eraseDups =
      if last ∈ items then items.eraseDups else items.eraseDups ++ [last] := by
  rw [List.eraseDups_append]
  by_cases known : last ∈ items
  · simp [List.removeAll, known]
  · simp [List.removeAll, known, List.eraseDups_cons]

theorem nodup_eraseDups (items : List κ) : items.eraseDups.Nodup := by
  induction items using List.reverseRecOn with
  | nil => exact List.nodup_nil
  | append_singleton items last ih =>
      rw [eraseDups_concat]
      split
      · exact ih
      · rename_i unknown
        rw [List.nodup_append]
        refine ⟨ih, List.pairwise_singleton _ last, ?_⟩
        intro item member other atEnd same
        rw [List.mem_singleton] at atEnd
        subst same
        subst atEnd
        exact unknown (List.mem_eraseDups.mp member)

theorem find?_eraseDups (test : κ → Bool) (items : List κ) :
    items.eraseDups.find? test = items.find? test := by
  induction items using List.reverseRecOn with
  | nil => rfl
  | append_singleton items last ih =>
      rw [eraseDups_concat, List.find?_append]
      split
      · rename_i known
        rw [ih]
        cases found : items.find? test with
        | some item => rfl
        | none =>
            have refused := List.find?_eq_none.mp found last known
            simp [refused]
      · rw [List.find?_append, ih]

end FirstAppearances

end VirtualHosts

namespace VirtualHosts.Dispatch

variable {κ β : Type} [DecidableEq κ]

theorem addUnder_map (key : κ) (value : β) (values : κ → List β) {keys : List κ}
    (distinct : keys.Nodup) :
    addUnder key value (keys.map fun known => (known, values known)) =
      if key ∈ keys then
        keys.map fun known =>
          (known, if known = key then values known ++ [value] else values known)
      else (keys.map fun known => (known, values known)) ++ [(key, [value])] := by
  induction keys with
  | nil => simp [addUnder]
  | cons first keys ih =>
      have apart := List.nodup_cons.mp distinct
      rw [List.map_cons, addUnder]
      by_cases same : first = key
      · subst same
        have untouched : ∀ known ∈ keys, known ≠ first := by
          intro known member equal
          subst equal
          exact apart.1 member
        rw [if_pos rfl, if_pos List.mem_cons_self, List.map_cons, if_pos rfl]
        congr 1
        refine List.map_congr_left fun known member => ?_
        rw [if_neg (untouched known member)]
      · rw [if_neg same, ih apart.2]
        have elsewhere : key ∈ first :: keys ↔ key ∈ keys := by
          simp [List.mem_cons, Ne.symm same]
        by_cases member : key ∈ keys
        · rw [if_pos member, if_pos (elsewhere.mpr member), List.map_cons, if_neg same]
        · rw [if_neg member, if_neg (mt elsewhere.mp member), List.cons_append]

/-- The keys are gathered in the order of their first appearance, each with all its
values. -/
theorem gather_eq [BEq κ] [LawfulBEq κ] (pairs : List (κ × β)) :
    gather pairs = (pairs.map Prod.fst).eraseDups.map fun key =>
      (key, (pairs.filter (·.1 = key)).map Prod.snd) := by
  induction pairs using List.reverseRecOn with
  | nil => rfl
  | append_singleton pairs last ih =>
      obtain ⟨key, value⟩ := last
      have step : gather (pairs ++ [(key, value)]) = addUnder key value (gather pairs) := by
        simp only [gather, List.foldl_append, List.foldl_cons, List.foldl_nil]
      rw [step, ih, addUnder_map key value _ (nodup_eraseDups _), List.map_append,
        List.map_cons, List.map_nil, eraseDups_concat]
      by_cases known : key ∈ pairs.map Prod.fst
      · rw [if_pos (List.mem_eraseDups.mpr known), if_pos known]
        refine List.map_congr_left fun other _ => ?_
        by_cases same : other = key
        · subst same
          simp
        · simp [same, Ne.symm same]
      · rw [if_neg (mt List.mem_eraseDups.mp known), if_neg known, List.map_append]
        have fresh : pairs.filter (·.1 = key) = [] := by
          rw [List.filter_eq_nil_iff]
          intro pair member
          simp only [decide_eq_true_eq]
          intro same
          exact known (List.mem_map.mpr ⟨pair, member, same⟩)
        congr 1
        · refine List.map_congr_left fun other member => ?_
          have different : key ≠ other := by
            intro same
            subst same
            exact known (List.mem_eraseDups.mp member)
          simp [different]
        · simp [fresh]

theorem lookup_map_mk [BEq κ] [LawfulBEq κ] (f : κ → β) (key : κ) (keys : List κ) :
    (keys.map fun known => (known, f known)).lookup key =
      if key ∈ keys then some (f key) else none := by
  induction keys with
  | nil => rfl
  | cons first rest ih =>
      rw [List.map_cons, List.lookup_cons, ih]
      by_cases same : key = first
      · subst same
        simp
      · rw [beq_eq_false_iff_ne.mpr same]
        simp [same]

/-- What is asked of the values gathered under a key is asked of all values with that key, if a
key without any has no answer. -/
theorem bind_lookup_gather [BEq κ] [LawfulBEq κ] {γ : Type} (ask : List β → Option γ)
    (nothing : ask [] = none) (pairs : List (κ × β)) (key : κ) :
    ((gather pairs).lookup key).bind ask = ask ((pairs.filter (·.1 = key)).map Prod.snd) := by
  rw [gather_eq, lookup_map_mk]
  by_cases known : key ∈ pairs.map Prod.fst
  · rw [if_pos (List.mem_eraseDups.mpr known)]
    rfl
  · have fresh : pairs.filter (·.1 = key) = [] := by
      rw [List.filter_eq_nil_iff]
      intro pair member same
      exact known (List.mem_map.mpr ⟨pair, member, of_decide_eq_true same⟩)
    rw [if_neg (mt List.mem_eraseDups.mp known), fresh, List.map_nil, nothing]
    rfl

end VirtualHosts.Dispatch
