/-
The route that a search finds.

Candidates are routes with what is left of each behind the segments already compared.  A
step of the search keeps to the candidates with a segment of one shape, and drops none of
them that could still be found.  So the search ends with the route that no other precedes,
among those that the path fits and that are not given up.
-/

import VirtualHosts.Proofs.Dispatch.Fitting
import VirtualHosts.Proofs.Dispatch.LoneRoute

namespace VirtualHosts.Dispatch

variable {β : Type}

/-! ### Candidates of one kind -/

def routesOf (candidates : List (Candidate β)) : List (List Segment) :=
  candidates.map Prod.snd

structure Consistent (candidates : List (Candidate β)) : Prop where
  placed : ∀ candidate ∈ candidates, WellPlaced candidate.2
  apart : ∀ candidate ∈ candidates, ∀ other ∈ candidates,
    candidate = other ∨ Apart candidate.2 other.2

/-- Whether a result is what there is to find among the candidates of one kind: the route of one
that is kept and that no other of the kind precedes. -/
def Chosen (kind : List Segment → Prop) (candidates : List (Candidate β))
    (texts : List (List Char)) : Option (ExactRoute β) → Prop
  | none => ∀ candidate ∈ candidates, kind candidate.2 →
      ¬Kept (routesOf candidates) texts candidate.2
  | some route => ∃ segments, (route, segments) ∈ candidates ∧ kind segments ∧
      Kept (routesOf candidates) texts segments ∧
        ∀ other ∈ candidates, kind other.2 → Kept (routesOf candidates) texts other.2 →
          ¬Precedes other.2 segments

section Chosen

variable {candidates : List (Candidate β)} {texts : List (List Char)}
  {kind other : List Segment → Prop}

theorem Chosen.of_kept {result : Option (ExactRoute β)}
    (chosen : Chosen kind candidates texts result)
    (wider : ∀ segments, kind segments → other segments)
    (only : ∀ candidate ∈ candidates, other candidate.2 →
      Kept (routesOf candidates) texts candidate.2 → kind candidate.2) :
    Chosen other candidates texts result := by
  cases result with
  | none =>
      intro candidate member isOther kept
      exact chosen candidate member (only candidate member isOther kept) kept
  | some route =>
      obtain ⟨segments, member, isKind, kept, first⟩ := chosen
      refine ⟨segments, member, wider segments isKind, kept, ?_⟩
      intro rival rivalMember isOther rivalKept
      exact first rival rivalMember (only rival rivalMember isOther rivalKept) rivalKept

/-- Those of the second kind are asked where there are none of the first. -/
theorem Chosen.or {first second : Option (ExactRoute β)}
    (left : Chosen kind candidates texts first) (right : Chosen other candidates texts second)
    (ordered : ∀ segments later, kind segments → other later → ¬Precedes later segments) :
    Chosen (fun segments => kind segments ∨ other segments) candidates texts (first.or second) := by
  cases first with
  | some route =>
      obtain ⟨segments, member, isKind, kept, unpreceded⟩ := left
      refine ⟨segments, member, .inl isKind, kept, ?_⟩
      rintro rival rivalMember (same | later) rivalKept
      · exact unpreceded rival rivalMember same rivalKept
      · exact ordered segments rival.2 isKind later
  | none =>
      rw [Option.none_or]
      refine right.of_kept (fun _ => .inr) ?_
      rintro candidate member (same | later) kept
      · exact absurd kept (left candidate member same)
      · exact later

end Chosen

/-! ### One step of the search -/

/-- Whether the second candidates are what is left of the first ones behind a segment of one
shape, and none of them is given up there. -/
structure Behind (head : Segment) (text : List Char) (texts : List (List Char))
    (candidates next : List (Candidate β)) : Prop where
  single : head.isRest = false
  matched : (head.match? text).isSome = true
  given : ∀ candidate ∈ next, ∃ own, own.anonymous = head.anonymous ∧
    (candidate.1, own :: candidate.2) ∈ candidates
  all : ∀ route own others, (route, own :: others) ∈ candidates →
    own.anonymous = head.anonymous → others.isEmpty = texts.isEmpty → (route, others) ∈ next
  undisputed : ∀ own others, own.anonymous = head.anonymous → Fits texts others →
    ∀ other ∈ routesOf candidates, GivenUp (text :: texts) (own :: others) other →
      ∃ segment behind, other = segment :: behind ∧ segment.anonymous = head.anonymous ∧
        GivenUp texts others behind

namespace Behind

variable {head : Segment} {text : List Char} {texts : List (List Char)}
  {candidates next : List (Candidate β)}

theorem consistent (behind : Behind head text texts candidates next)
    (held : Consistent candidates) : Consistent next := by
  constructor
  · intro candidate member
    obtain ⟨own, _, known⟩ := behind.given candidate member
    exact (held.placed _ known).behind
  · intro candidate member other otherMember
    obtain ⟨own, shape, known⟩ := behind.given candidate member
    obtain ⟨otherOwn, otherShape, otherKnown⟩ := behind.given other otherMember
    rcases held.apart _ known _ otherKnown with same | apart
    · obtain ⟨sameRoute, sameSegments⟩ := Prod.mk.inj same
      exact .inl (Prod.ext sameRoute (List.cons.inj sameSegments).2)
    · exact .inr (apart.behind (shape.trans otherShape.symm))

theorem kept_iff (behind : Behind head text texts candidates next) {own : Segment}
    (shape : own.anonymous = head.anonymous) (others : List Segment) :
    Kept (routesOf candidates) (text :: texts) (own :: others) ↔
      Kept (routesOf next) texts others := by
  have single : own.isRest = false := by
    have noRest := behind.single
    revert shape
    cases own <;> cases head <;> simp_all [Segment.anonymous, Segment.isRest]
  constructor
  · intro kept
    refine ⟨((fits_cons single).mp kept.fits).2, ?_⟩
    intro other member givenUp
    obtain ⟨candidate, atNext, rfl⟩ := List.mem_map.mp member
    obtain ⟨otherOwn, otherShape, known⟩ := behind.given candidate atNext
    refine kept.never (otherOwn :: candidate.2) (List.mem_map.mpr ⟨_, known, rfl⟩) ?_
    exact .later (shape.trans otherShape.symm) givenUp
  · intro kept
    have matched := Segment.match?_isSome_of_anonymous shape.symm behind.matched
    refine ⟨(fits_cons single).mpr ⟨matched, kept.fits⟩, ?_⟩
    intro other member givenUp
    obtain ⟨segment, rest, rfl, otherShape, later⟩ :=
      behind.undisputed own others shape kept.fits other member givenUp
    obtain ⟨⟨route, segments⟩, known, rfl⟩ := List.mem_map.mp member
    have sameEnd : rest.isEmpty = texts.isEmpty := later.nonempty.2.trans later.nonempty.1.symm
    have atNext := behind.all route segment rest known otherShape sameEnd
    exact kept.never rest (List.mem_map.mpr ⟨_, atNext, rfl⟩) later

theorem chosen (behind : Behind head text texts candidates next)
    {result : Option (ExactRoute β)} (chosen : Chosen (fun _ => True) next texts result) :
    Chosen (fun segments => ∃ own others, segments = own :: others ∧
      own.anonymous = head.anonymous) candidates (text :: texts) result := by
  -- A candidate of this shape that is kept is among the next ones, and is kept there.
  have passes {candidate : Candidate β} (member : candidate ∈ candidates) {own : Segment}
      {others : List Segment} (parts : candidate.2 = own :: others)
      (shape : own.anonymous = head.anonymous)
      (kept : Kept (routesOf candidates) (text :: texts) candidate.2) :
      (candidate.1, others) ∈ next ∧ Kept (routesOf next) texts others := by
    obtain ⟨route, segments⟩ := candidate
    obtain rfl : segments = own :: others := parts
    have later := (behind.kept_iff shape others).mp kept
    exact ⟨behind.all route own others member shape (fits_isEmpty later.fits), later⟩
  cases result with
  | none =>
      rintro candidate member ⟨own, others, parts, shape⟩ kept
      obtain ⟨atNext, later⟩ := passes member parts shape kept
      exact chosen _ atNext trivial later
  | some route =>
      obtain ⟨segments, member, _, kept, first⟩ := chosen
      obtain ⟨own, shape, known⟩ := behind.given _ member
      refine ⟨own :: segments, known, ⟨own, segments, rfl, shape⟩,
        (behind.kept_iff shape segments).mpr kept, ?_⟩
      rintro other otherMember ⟨otherOwn, others, parts, otherShape⟩ otherKept
      obtain ⟨atNext, later⟩ := passes otherMember parts otherShape otherKept
      rw [parts]
      exact not_precedes_cons (otherShape.trans shape.symm) (first _ atNext trivial later)

end Behind

theorem behind_literal (candidates : List (Candidate β)) (text : List Char)
    (texts : List (List Char)) :
    Behind (.literal text) text texts candidates (candidates.filterMap (·.afterLiteral? text)) := by
  refine ⟨rfl, (Segment.match?_literal_isSome text text).mpr rfl, ?_, ?_, ?_⟩
  · intro candidate member
    obtain ⟨origin, known, step⟩ := List.mem_filterMap.mp member
    obtain ⟨sameRoute, parts⟩ := afterLiteral?_route step
    refine ⟨.literal text, rfl, ?_⟩
    rw [sameRoute, ← parts]
    exact known
  · intro route own others member shape _
    obtain rfl := Segment.anonymous_eq_literal shape
    exact List.mem_filterMap.mpr ⟨_, member, by simp [Candidate.afterLiteral?]⟩
  · intro own others shape _ other _ givenUp
    obtain rfl := Segment.anonymous_eq_literal shape
    cases givenUp with
    | later same further => exact ⟨_, _, rfl, same.symm, further⟩

theorem afterCapture?_eq_some_iff {before tail after : List Char} {isLast : Bool}
    {candidate next : Candidate β} :
    candidate.afterCapture? before tail isLast = some (after, next) ↔
      ∃ name, candidate = (next.1, .capture before name after :: next.2) ∧
        next.2.isEmpty = isLast ∧ after <:+ tail ∧ after.length < tail.length := by
  obtain ⟨route, segments⟩ := candidate
  cases segments with
  | nil => simp [Candidate.afterCapture?]
  | cons segment others =>
      cases segment with
      | literal own => simp [Candidate.afterCapture?]
      | rest own name => simp [Candidate.afterCapture?]
      | capture own name behind =>
          obtain ⟨nextRoute, nextOthers⟩ := next
          simp only [Candidate.afterCapture?, Option.ite_none_right_eq_some, Option.some.injEq,
            Prod.mk.injEq, List.cons.injEq, Segment.capture.injEq, List.isSuffixOf_iff_suffix]
          constructor
          · rintro ⟨⟨rfl, sameEnd, fits, shorter⟩, rfl, rfl, rfl⟩
            exact ⟨name, ⟨rfl, ⟨rfl, rfl, rfl⟩, rfl⟩, sameEnd, fits, shorter⟩
          · rintro ⟨_, ⟨rfl, ⟨rfl, rfl, rfl⟩, rfl⟩, sameEnd, fits, shorter⟩
            exact ⟨⟨rfl, sameEnd, fits, shorter⟩, rfl, rfl, rfl⟩

def capturing (before tail : List Char) (isLast : Bool) (candidates : List (Candidate β)) :
    List (List Char × Candidate β) :=
  candidates.filterMap (·.afterCapture? before tail isLast)

theorem mem_capturing {before tail after : List Char} {isLast : Bool}
    {candidates : List (Candidate β)} {candidate : Candidate β} :
    (after, candidate) ∈ capturing before tail isLast candidates ↔
      ∃ name, (candidate.1, .capture before name after :: candidate.2) ∈ candidates ∧
        candidate.2.isEmpty = isLast ∧ after <:+ tail ∧ after.length < tail.length := by
  rw [capturing, List.mem_filterMap]
  constructor
  · rintro ⟨origin, known, step⟩
    obtain ⟨name, rfl, fits⟩ := afterCapture?_eq_some_iff.mp step
    exact ⟨name, known, fits⟩
  · rintro ⟨name, known, fits⟩
    exact ⟨_, known, afterCapture?_eq_some_iff.mpr ⟨name, rfl, fits⟩⟩

/-- Settled for are those that demand the longest of the texts. -/
theorem settle_spec {found : List (List Char × Candidate β)} (nonempty : found ≠ []) :
    ∃ longest, (∃ candidate, (longest, candidate) ∈ found) ∧
      (∀ entry ∈ found, entry.1.length ≤ longest.length) ∧
      ∀ candidate, candidate ∈ settle found ↔
        ∃ after, (after, candidate) ∈ found ∧ after.length = longest.length := by
  obtain ⟨first, rest, rfl⟩ := List.exists_cons_of_ne_nil nonempty
  have most : (first.1.length :: rest.map (·.1.length)).max? =
      some ((rest.map (·.1.length)).foldl max first.1.length) := List.max?_cons'
  rw [← List.map_cons (f := fun entry : List Char × Candidate β => entry.1.length)] at most
  obtain ⟨attained, bound⟩ := List.max?_eq_some_iff.mp most
  obtain ⟨⟨longest, candidate⟩, member, length⟩ := List.mem_map.mp attained
  refine ⟨longest, ⟨candidate, member⟩, ?_, ?_⟩
  · intro entry given
    rw [length]
    exact bound _ (List.mem_map.mpr ⟨entry, given, rfl⟩)
  · intro other
    have chosen : settle (first :: rest) =
        ((first :: rest).filter (·.1.length == longest.length)).map Prod.snd := by
      unfold settle
      rw [length, List.map_cons, List.foldl_cons, Nat.zero_max]
    rw [chosen]
    constructor
    · intro settled
      obtain ⟨⟨after, _⟩, kept, rfl⟩ := List.mem_map.mp settled
      obtain ⟨given, sameLength⟩ := List.mem_filter.mp kept
      exact ⟨after, given, beq_iff_eq.mp sameLength⟩
    · rintro ⟨after, given, sameLength⟩
      exact List.mem_map.mpr ⟨_, List.mem_filter.mpr ⟨given, beq_iff_eq.mpr sameLength⟩, rfl⟩

theorem capturing_of_fits {candidates : List (Candidate β)} {route : ExactRoute β}
    {before name after tail : List Char} {texts : List (List Char)} {others : List Segment}
    (member : (route, .capture before name after :: others) ∈ candidates)
    (fits : Fits ((before ++ tail) :: texts) (.capture before name after :: others)) :
    (after, (route, others)) ∈ capturing before tail texts.isEmpty candidates := by
  obtain ⟨matched, later⟩ := (fits_cons rfl).mp fits
  exact mem_capturing.mpr ⟨name, member, fits_isEmpty later,
    (Segment.match?_capture_append_isSome _ _ _ _).mp matched⟩

/-- Behind the same text, what demands the most is followed, and the rest is given up. -/
theorem behind_settle {candidates : List (Candidate β)} {before tail : List Char}
    {texts : List (List Char)} (nonempty : capturing before tail texts.isEmpty candidates ≠ []) :
    ∃ longest, Behind (.capture before [] longest) (before ++ tail) texts candidates
        (settle (capturing before tail texts.isEmpty candidates)) ∧
      ∀ route name after others, (route, .capture before name after :: others) ∈ candidates →
        Kept (routesOf candidates) ((before ++ tail) :: texts)
          (.capture before name after :: others) → after = longest := by
  obtain ⟨longest, ⟨leader, led⟩, most, settled⟩ := settle_spec nonempty
  obtain ⟨leaderName, leading, leaderEnd, atEnd, shorter⟩ := mem_capturing.mp led
  have demanded (name : List Char) :
      ((Segment.capture before name longest).match? (before ++ tail)).isSome = true :=
    (Segment.match?_capture_append_isSome _ _ _ _).mpr ⟨atEnd, shorter⟩
  -- Both texts stand at the end of what is left, so one length makes them one text.
  have sameText {after : List Char} (fits : after <:+ tail)
      (length : after.length = longest.length) : after = longest :=
    (List.suffix_of_suffix_length_le fits atEnd length.le).eq_of_length length
  refine ⟨longest, ⟨rfl, demanded [], ?_, ?_, ?_⟩, ?_⟩
  · intro candidate member
    obtain ⟨after, given, length⟩ := (settled candidate).mp member
    obtain ⟨name, known, _, fits, _⟩ := mem_capturing.mp given
    refine ⟨.capture before name after, ?_, known⟩
    rw [sameText fits length]
    rfl
  · intro route own others member shape sameEnd
    obtain ⟨name, rfl⟩ := Segment.anonymous_eq_capture shape
    exact (settled _).mpr ⟨longest, mem_capturing.mpr ⟨name, member, sameEnd, atEnd, shorter⟩, rfl⟩
  · intro own others shape fits other otherMember givenUp
    obtain ⟨name, rfl⟩ := Segment.anonymous_eq_capture shape
    cases givenUp with
    | later same further => exact ⟨_, _, rfl, same.symm, further⟩
    | @here _ _ _ _ otherName otherAfter _ _ otherOthers sameEnd longer matched =>
        obtain ⟨⟨route, _⟩, known, rfl⟩ := List.mem_map.mp otherMember
        have given : (otherAfter, (route, otherOthers)) ∈
            capturing before tail texts.isEmpty candidates :=
          mem_capturing.mpr ⟨otherName, known, sameEnd.symm.trans (fits_isEmpty fits),
            (Segment.match?_capture_append_isSome _ _ _ _).mp matched⟩
        exact absurd (most _ given) (Nat.not_le.mpr longer)
  · intro route name after others member kept
    have given := capturing_of_fits member kept.fits
    obtain ⟨_, _, ownEnd, fits, _⟩ := mem_capturing.mp given
    refine sameText fits (Nat.le_antisymm (most _ given) (Nat.le_of_not_lt fun longer => ?_))
    refine kept.never (.capture before leaderName longest :: leader.2)
      (List.mem_map.mpr ⟨_, leading, rfl⟩) ?_
    exact .here (ownEnd.trans leaderEnd.symm) longer (demanded leaderName)

/-! ### The cuts of a segment -/

theorem search_empty (texts : List (List Char)) :
    search texts ([] : List (Candidate β)) = none := by
  unfold search
  rfl

/-- Where a parameter for the rest of the path captures, no other parameter stands. -/
theorem chosen_rest {candidates : List (Candidate β)} (held : Consistent candidates)
    {before tail : List Char} {texts : List (List Char)} (something : ¬(tail = [] ∧ texts = []))
    {candidate : Candidate β} (member : candidate ∈ candidates)
    (captures : candidate.capturesRest before = true) :
    Chosen (OpensWith before) candidates ((before ++ tail) :: texts) (some candidate.1) := by
  obtain ⟨route, segments⟩ := candidate
  unfold Candidate.capturesRest at captures
  split at captures
  · rename_i sameRoute own name others same
    obtain ⟨rfl, rfl⟩ := Prod.mk.inj same
    obtain rfl := beq_iff_eq.mp captures
    obtain ⟨noSlash, rfl⟩ := held.placed _ member
    refine ⟨[.rest own name], member, ⟨_, _, rfl, rfl⟩, ⟨?_, ?_⟩, ?_⟩
    · exact (fits_rest noSlash).mpr ⟨tail, rfl, something⟩
    · intro other _ givenUp
      cases givenUp with
      | later _ further => cases further
    · rintro other otherMember ⟨segment, others, parts, parameter⟩ _ precedes
      rcases held.apart _ member _ otherMember with same | apart
      · rw [← same] at precedes
        cases precedes with
        | longer first second longer =>
            cases first
            cases second
            exact Nat.lt_irrefl _ longer
        | later _ further => cases further
      · rw [parts] at apart
        exact absurd (apart.head rfl parameter) Bool.noConfusion
  · cases captures

/-- Where nothing is left to capture, no parameter fits. -/
theorem not_fits_of_nothing {before tail : List Char} {texts : List (List Char)}
    (nothing : tail = [] ∧ texts = []) {segments : List Segment} (placed : WellPlaced segments)
    (opens : OpensWith before segments) : ¬Fits ((before ++ tail) :: texts) segments := by
  intro fits
  obtain ⟨segment, others, rfl, parameter⟩ := opens
  cases segment with
  | literal own => cases parameter
  | capture own name after =>
      cases parameter
      obtain ⟨_, shorter⟩ :=
        (Segment.match?_capture_append_isSome _ _ _ _).mp ((fits_cons rfl).mp fits).1
      rw [nothing.1] at shorter
      exact Nat.not_lt_zero _ shorter
  | rest own name =>
      cases parameter
      obtain ⟨rest, same, something⟩ := (fits_rest placed.1).mp fits
      rw [← List.append_cancel_left same] at something
      exact something nothing

/-- Where no parameter captures the rest, those that demand the most behind the text are
searched. -/
theorem chosen_capture {candidates : List (Candidate β)} (held : Consistent candidates)
    {before tail : List Char} {texts : List (List Char)}
    (noRest : candidates.find? (·.capturesRest before) = none)
    (searched : ∀ next : List (Candidate β), Consistent next →
      Chosen (fun _ => True) next texts (search texts next)) :
    Chosen (OpensWith before) candidates ((before ++ tail) :: texts)
      (search texts (settle (capturing before tail texts.isEmpty candidates))) := by
  have parts {route : ExactRoute β} {segments : List Segment}
      (member : (route, segments) ∈ candidates) (opens : OpensWith before segments) :
      ∃ name after others, segments = .capture before name after :: others := by
    obtain ⟨segment, others, rfl, parameter⟩ := opens
    have single : segment.isRest = false := by
      cases segment with
      | literal own => rfl
      | capture own name after => rfl
      | rest own name =>
          cases parameter
          have refused := List.find?_eq_none.mp noRest _ member
          simp [Candidate.capturesRest] at refused
    obtain ⟨name, after, rfl⟩ := Segment.eq_capture single parameter
    exact ⟨name, after, others, rfl⟩
  by_cases empty : capturing before tail texts.isEmpty candidates = []
  · have nothing : search texts (settle ([] : List (List Char × Candidate β))) = none :=
      search_empty texts
    rw [empty, nothing]
    rintro ⟨route, segments⟩ member opens kept
    obtain ⟨name, after, others, rfl⟩ := parts member opens
    have given := capturing_of_fits member kept.fits
    rw [empty] at given
    cases given
  · obtain ⟨longest, behind, only⟩ := behind_settle empty
    refine (behind.chosen (searched _ (behind.consistent held))).of_kept ?_ ?_
    · rintro segments ⟨own, others, rfl, shape⟩
      obtain ⟨name, rfl⟩ := Segment.anonymous_eq_capture shape
      exact ⟨_, _, rfl, rfl⟩
    · rintro ⟨route, segments⟩ member opens kept
      obtain ⟨name, after, others, rfl⟩ := parts member opens
      obtain rfl := only route name after others member kept
      exact ⟨_, _, rfl, rfl⟩

def searchCut (texts : List (List Char)) (candidates : List (Candidate β)) :
    List Char × List Char → Option (ExactRoute β)
  | (before, tail) =>
      if tail.isEmpty ∧ texts.isEmpty then none
      else
        match candidates.find? (·.capturesRest before) with
        | some (route, _) => some route
        | none => search texts (settle (capturing before tail texts.isEmpty candidates))

theorem chosen_cut {candidates : List (Candidate β)} (held : Consistent candidates)
    (before tail : List Char) {texts : List (List Char)}
    (searched : ∀ next : List (Candidate β), Consistent next →
      Chosen (fun _ => True) next texts (search texts next)) :
    Chosen (OpensWith before) candidates ((before ++ tail) :: texts)
      (searchCut texts candidates (before, tail)) := by
  rw [searchCut]
  simp only [List.isEmpty_iff]
  split
  · rename_i nothing
    intro candidate member opens kept
    exact not_fits_of_nothing nothing (held.placed _ member) opens kept.fits
  · rename_i something
    split
    · rename_i route segments captured
      exact chosen_rest held something (List.mem_of_find?_eq_some captured)
        (List.find?_some captured)
    · rename_i noRest
      exact chosen_capture held noRest searched

theorem cuts_pairwise (text : List Char) :
    (cuts text).Pairwise fun longer shorter => shorter.1.length < longer.1.length := by
  rw [cuts, List.pairwise_map, List.pairwise_reverse]
  refine List.pairwise_lt_range.imp_of_mem ?_
  intro left right _ inRange shorter
  rw [List.mem_range] at inRange
  rw [List.splitAt_eq, List.splitAt_eq, List.length_take, List.length_take]
  omega

theorem eq_append_of_mem_cuts {text before tail : List Char}
    (member : (before, tail) ∈ cuts text) : text = before ++ tail := by
  obtain ⟨length, _, same⟩ := List.mem_map.mp member
  rw [List.splitAt_eq, Prod.mk.injEq] at same
  rw [← same.1, ← same.2, List.take_append_drop]

theorem chosen_findSome? {candidates : List (Candidate β)} {texts : List (List Char)}
    {found : List (List Char × List Char)}
    (ordered : found.Pairwise fun longer shorter => shorter.1.length < longer.1.length)
    {tried : List Char × List Char → Option (ExactRoute β)}
    (each : ∀ cut ∈ found, Chosen (OpensWith cut.1) candidates texts (tried cut)) :
    Chosen (fun segments => ∃ cut ∈ found, OpensWith cut.1 segments) candidates texts
      (found.findSome? tried) := by
  induction found with
  | nil =>
      rintro candidate member ⟨cut, impossible, _⟩
      cases impossible
  | cons cut found ih =>
      obtain ⟨shorter, ordered⟩ := List.pairwise_cons.mp ordered
      have later := ih ordered fun cut member => each cut (List.mem_cons_of_mem _ member)
      have both := (each cut List.mem_cons_self).or later <| by
        rintro segments behind opens ⟨other, member, otherOpens⟩
        exact opens.not_precedes otherOpens (shorter other member)
      have split : (cut :: found).findSome? tried = (tried cut).or (found.findSome? tried) := by
        rw [List.findSome?_cons]
        cases tried cut <;> rfl
      rw [split]
      refine both.of_kept ?_ ?_
      · rintro segments (opens | ⟨other, member, opens⟩)
        · exact ⟨cut, List.mem_cons_self, opens⟩
        · exact ⟨other, List.mem_cons_of_mem _ member, opens⟩
      · rintro candidate _ ⟨other, member, opens⟩ _
        rcases List.mem_cons.mp member with rfl | member
        · exact .inl opens
        · exact .inr ⟨other, member, opens⟩

/-! ### The whole search -/

/-- Literal text is asked first, and then every cut of the segment, the longest text first. -/
theorem chosen_cons {text : List Char} {texts : List (List Char)}
    (searched : ∀ next : List (Candidate β), Consistent next →
      Chosen (fun _ => True) next texts (search texts next))
    {candidates : List (Candidate β)} (held : Consistent candidates) (nonempty : candidates ≠ []) :
    Chosen (fun _ => True) candidates (text :: texts) (search (text :: texts) candidates) := by
  obtain ⟨first, rest, rfl⟩ := List.exists_cons_of_ne_nil nonempty
  have literal := (behind_literal (first :: rest) text texts).chosen <|
    searched _ ((behind_literal (first :: rest) text texts).consistent held)
  have parameter : Chosen (fun segments => ∃ cut ∈ cuts text, OpensWith cut.1 segments)
      (first :: rest) (text :: texts)
      ((cuts text).findSome? (searchCut texts (first :: rest))) := by
    refine chosen_findSome? (cuts_pairwise text) ?_
    rintro ⟨before, tail⟩ member
    have cut := chosen_cut held before tail searched
    rwa [← eq_append_of_mem_cuts member] at cut
  have both := literal.or parameter <| by
    rintro segments later ⟨own, others, rfl, shape⟩ ⟨cut, _, segment, behind, rfl, before⟩ precedes
    obtain rfl := Segment.anonymous_eq_literal shape
    cases precedes with
    | literal _ => cases before
    | longer _ impossible _ => cases impossible
    | later same _ =>
        rw [Segment.anonymous_eq_literal same] at before
        cases before
  have split : search (text :: texts) (first :: rest) =
      (search texts ((first :: rest).filterMap (·.afterLiteral? text))).or
        ((cuts text).findSome? (searchCut texts (first :: rest))) :=
    search_cons text texts first rest
  rw [split]
  refine both.of_kept (fun _ _ => trivial) ?_
  rintro ⟨route, segments⟩ member _ kept
  cases segments with
  | nil => exact absurd kept.fits Bool.noConfusion
  | cons segment others =>
      cases opening : segment.before? with
      | none =>
          obtain rfl := eq_literal_of_fits opening kept.fits
          exact .inl ⟨_, _, rfl, rfl⟩
      | some before =>
          have opens : OpensWith before (segment :: others) := ⟨_, _, rfl, opening⟩
          obtain ⟨tail, rfl⟩ := prefix_of_fits (held.placed _ member) opens kept.fits
          exact .inr ⟨_, mem_cuts before tail, opens⟩

/-- The search finds the foremost route, and fails only if none is kept. -/
theorem search_chosen (texts : List (List Char)) (candidates : List (Candidate β))
    (held : Consistent candidates) :
    Chosen (fun _ => True) candidates texts (search texts candidates) := by
  induction texts generalizing candidates with
  | nil =>
      cases candidates with
      | nil =>
          rw [search_empty]
          intro candidate impossible
          cases impossible
      | cons first rest =>
          rw [search_nil]
          cases found : (first :: rest).find? (·.2.isEmpty) with
          | none =>
              intro candidate member _ kept
              have ended := fits_isEmpty kept.fits
              exact List.find?_eq_none.mp found candidate member ended
          | some candidate =>
              obtain ⟨route, segments⟩ := candidate
              have ended := List.find?_some found
              obtain rfl : segments = [] := List.isEmpty_iff.mp ended
              refine ⟨[], List.mem_of_find?_eq_some found, trivial, ⟨rfl, ?_⟩, ?_⟩
              · intro other _ givenUp
                cases givenUp
              · rintro ⟨_, other⟩ _ _ _ precedes
                cases precedes
  | cons text texts ih =>
      by_cases empty : candidates = []
      · rw [empty, search_empty]
        intro candidate impossible
        cases impossible
      · exact chosen_cons ih held empty

end VirtualHosts.Dispatch
