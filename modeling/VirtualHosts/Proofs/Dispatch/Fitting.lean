/-
Paths that fit routes, and the order in which routes are asked.

Of the routes that a path fits, one precedes another that has a parameter where it is
literal, or that has less literal text in front of the parameter.  Routes that part in the
text behind a parameter are not compared but given up: the one with more text there stays,
even if the path does not fit it in the end.
-/

import VirtualHosts.Dispatch.Segment
import VirtualHosts.Proofs.Text

namespace VirtualHosts.Dispatch

/-! ### What is found, without the search -/

def Fits (texts : List (List Char)) (segments : List Segment) : Prop :=
  (matchSegments? segments texts).isSome = true

/-- Whether a route is given up for another one: behind the same parameter the other demands
more text, and the path has it there. -/
inductive GivenUp : List (List Char) → List Segment → List Segment → Prop
  | here {text before name after otherName otherAfter : List Char} {texts : List (List Char)}
      {others otherOthers : List Segment} (sameEnd : others.isEmpty = otherOthers.isEmpty)
      (longer : after.length < otherAfter.length)
      (demanded : ((Segment.capture before otherName otherAfter).match? text).isSome = true) :
      GivenUp (text :: texts) (.capture before name after :: others)
        (.capture before otherName otherAfter :: otherOthers)
  | later {text : List Char} {texts : List (List Char)} {segment other : Segment}
      {others otherOthers : List Segment} (same : segment.anonymous = other.anonymous)
      (behind : GivenUp texts others otherOthers) :
      GivenUp (text :: texts) (segment :: others) (other :: otherOthers)

/-- Whether a route is asked before another one: where their shapes part it is literal and the
other has a parameter there, or it has more literal text in front of its parameter. -/
inductive Precedes : List Segment → List Segment → Prop
  | literal {text before : List Char} {other : Segment} {others otherOthers : List Segment}
      (parameter : other.before? = some before) :
      Precedes (.literal text :: others) (other :: otherOthers)
  | longer {before otherBefore : List Char} {segment other : Segment}
      {others otherOthers : List Segment} (parameter : segment.before? = some before)
      (otherParameter : other.before? = some otherBefore)
      (longer : otherBefore.length < before.length) :
      Precedes (segment :: others) (other :: otherOthers)
  | later {segment other : Segment} {others otherOthers : List Segment}
      (same : segment.anonymous = other.anonymous) (behind : Precedes others otherOthers) :
      Precedes (segment :: others) (other :: otherOthers)

/-- Whether a path fits a route, which is given up for none of the routes. -/
structure Kept (routes : List (List Segment)) (texts : List (List Char))
    (segments : List Segment) : Prop where
  fits : Fits texts segments
  never : ∀ other ∈ routes, ¬GivenUp texts segments other

/-- Whether a route is the one to answer a path, among the routes that are kept for it. -/
structure Foremost (routes : List (List Segment)) (texts : List (List Char))
    (segments : List Segment) : Prop extends Kept routes texts segments where
  first : ∀ other ∈ routes, Kept routes texts other → ¬Precedes other segments

/-! ### Routes that stand beside each other -/

/-- Two routes differ in more than the names of parameters, and where their shapes are the same
in front of two parameters behind the same text, neither is for the rest of the path. -/
structure Apart (left right : List Segment) : Prop where
  shape : left.map Segment.anonymous ≠ right.map Segment.anonymous
  rest : ∀ depth own other before, left[depth]? = some own → right[depth]? = some other →
    (left.take depth).map Segment.anonymous = (right.take depth).map Segment.anonymous →
      own.before? = some before → other.before? = some before →
        own.isRest = false ∧ other.isRest = false

/-- A parameter for the rest is the last segment, and the text in front of it is without a
slash. -/
def WellPlaced : List Segment → Prop
  | [] => True
  | .rest before _ :: others => '/' ∉ before ∧ others = []
  | .literal _ :: others | .capture _ _ _ :: others => WellPlaced others

theorem Apart.symm {left right : List Segment} (apart : Apart left right) : Apart right left := by
  refine ⟨fun same => apart.shape same.symm, ?_⟩
  intro depth own other before atRight atLeft sameShape ownBefore otherBefore
  exact (apart.rest depth other own before atLeft atRight sameShape.symm otherBefore
    ownBefore).symm

theorem Apart.behind {own other : Segment} {others otherOthers : List Segment}
    (apart : Apart (own :: others) (other :: otherOthers))
    (same : own.anonymous = other.anonymous) : Apart others otherOthers := by
  constructor
  · intro sameShape
    refine apart.shape ?_
    rw [List.map_cons, List.map_cons, same, sameShape]
  · intro depth left right before atLeft atRight sameShape
    refine apart.rest (depth + 1) left right before atLeft atRight ?_
    rw [List.take_succ_cons, List.take_succ_cons, List.map_cons, List.map_cons, same, sameShape]

theorem Apart.head {own other : Segment} {others otherOthers : List Segment}
    (apart : Apart (own :: others) (other :: otherOthers)) {before : List Char}
    (ownBefore : own.before? = some before) (otherBefore : other.before? = some before) :
    own.isRest = false :=
  (apart.rest 0 own other before rfl rfl rfl ownBefore otherBefore).1

theorem WellPlaced.behind {segment : Segment} {others : List Segment}
    (placed : WellPlaced (segment :: others)) : WellPlaced others := by
  cases segment with
  | literal text => exact placed
  | capture before name after => exact placed
  | rest before name =>
      rw [placed.2]
      trivial

/-! ### Segments without their names -/

namespace Segment

theorem anonymous_eq_literal {segment : Segment} {text : List Char}
    (same : segment.anonymous = literal text) : segment = literal text := by
  cases segment <;> simp_all [anonymous]

theorem anonymous_eq_capture {segment : Segment} {before name after : List Char}
    (same : segment.anonymous = (capture before name after).anonymous) :
    ∃ own, segment = capture before own after := by
  cases segment <;> simp_all [anonymous]

theorem eq_capture {segment : Segment} (single : segment.isRest = false) {before : List Char}
    (parameter : segment.before? = some before) :
    ∃ name after, segment = capture before name after := by
  cases segment with
  | literal text => cases parameter
  | capture own name after =>
      cases parameter
      exact ⟨name, after, rfl⟩
  | rest own name => cases single

theorem before?_anonymous (segment : Segment) : segment.anonymous.before? = segment.before? := by
  cases segment <;> rfl

end Segment

theorem Apart.single {own other : Segment} {others otherOthers : List Segment}
    (apart : Apart (own :: others) (other :: otherOthers))
    (same : own.anonymous = other.anonymous) : own.isRest = false := by
  cases own with
  | literal text => rfl
  | capture before name after => rfl
  | rest before name =>
      have otherBefore : other.before? = some before := by
        rw [← Segment.before?_anonymous, ← same]
        rfl
      exact apart.head rfl otherBefore

/-! ### What fits -/

namespace Segment

theorem match?_capture_isSome (before name after text : List Char) :
    ((capture before name after).match? text).isSome = true ↔
      ∃ tail, text = before ++ tail ∧ after <:+ tail ∧ after.length < tail.length := by
  rw [match?]
  cases dropped : Text.dropBeginning? before text with
  | none =>
      rw [Text.dropBeginning?_eq_none_iff] at dropped
      simp only [Option.isSome_none, Bool.false_eq_true, false_iff]
      rintro ⟨tail, rfl, _⟩
      exact dropped (List.prefix_append before tail)
  | some tail =>
      rw [Text.dropBeginning?_eq_some_iff] at dropped
      subst dropped
      simp

theorem match?_capture_append_isSome (before name after tail : List Char) :
    ((capture before name after).match? (before ++ tail)).isSome = true ↔
      after <:+ tail ∧ after.length < tail.length := by
  rw [match?_capture_isSome]
  constructor
  · rintro ⟨rest, same, demanded⟩
    rwa [List.append_cancel_left same]
  · intro demanded
    exact ⟨tail, rfl, demanded⟩

theorem match?_literal_isSome (own text : List Char) :
    ((literal own).match? text).isSome = true ↔ own = text := by
  rw [match?]
  split <;> simp_all

theorem match?_rest_isSome (before name text : List Char) :
    ((rest before name).match? text).isSome = true ↔ ∃ tail, text = before ++ tail ∧ tail ≠ [] := by
  rw [match?]
  cases dropped : Text.dropBeginning? before text with
  | none =>
      rw [Text.dropBeginning?_eq_none_iff] at dropped
      simp only [Option.isSome_none, Bool.false_eq_true, false_iff]
      rintro ⟨tail, rfl, _⟩
      exact dropped (List.prefix_append before tail)
  | some tail =>
      rw [Text.dropBeginning?_eq_some_iff] at dropped
      subst dropped
      cases tail <;> simp

theorem match?_isSome_of_anonymous {segment other : Segment}
    (same : segment.anonymous = other.anonymous) {text : List Char}
    (matched : (segment.match? text).isSome = true) : (other.match? text).isSome = true := by
  cases other with
  | literal own =>
      rwa [anonymous_eq_literal same] at matched
  | capture before name after =>
      obtain ⟨own, rfl⟩ := anonymous_eq_capture same
      rw [match?_capture_isSome] at matched ⊢
      exact matched
  | rest before name =>
      cases segment with
      | rest ownBefore ownName =>
          obtain rfl : ownBefore = before := (Segment.rest.inj same).1
          rw [match?_rest_isSome] at matched ⊢
          exact matched
      | literal own => cases same
      | capture ownBefore name after => cases same

end Segment

theorem fits_cons {segment : Segment} (noRest : segment.isRest = false) {text : List Char}
    {texts : List (List Char)} {others : List Segment} :
    Fits (text :: texts) (segment :: others) ↔
      (segment.match? text).isSome = true ∧ Fits texts others := by
  rw [Fits, Fits, matchSegments?, noRest]
  cases segment.match? text with
  | none => simp
  | some captured => cases matchSegments? others texts <;> simp

theorem eq_literal_of_fits {segment : Segment} (literal : segment.before? = none)
    {text : List Char} {texts : List (List Char)} {others : List Segment}
    (fits : Fits (text :: texts) (segment :: others)) : segment = .literal text := by
  cases segment with
  | literal own => rw [(Segment.match?_literal_isSome own text).mp ((fits_cons rfl).mp fits).1]
  | capture before name after => cases literal
  | rest before name => cases literal

theorem fits_isEmpty {texts : List (List Char)} {segments : List Segment}
    (fits : Fits texts segments) : segments.isEmpty = texts.isEmpty := by
  cases segments <;> cases texts <;> first | rfl | cases fits

/-- The text in front of a parameter for the rest is looked for in the first segment only. -/
theorem fits_rest {before name text : List Char} (noSlash : '/' ∉ before)
    {texts : List (List Char)} {others : List Segment} :
    Fits (text :: texts) (.rest before name :: others) ↔
      ∃ tail, text = before ++ tail ∧ ¬(tail = [] ∧ texts = []) := by
  have isRest : (Segment.rest before name).isRest = true := rfl
  rw [Fits, matchSegments?, if_pos isRest, Segment.match?_rest_isSome]
  cases texts with
  | nil => simp [Text.join_singleton]
  | cons second texts =>
      rw [Text.join_cons_cons, List.append_assoc]
      constructor
      · rintro ⟨tail, whole, _⟩
        rcases List.append_eq_append_iff.mp whole with ⟨behind, rfl, slash⟩ | ⟨inner, rfl, _⟩
        · cases behind with
          | nil => exact ⟨[], by simp, by simp⟩
          | cons c behind =>
              rw [List.singleton_append, List.cons_append] at slash
              rw [← (List.cons.inj slash).1] at noSlash
              simp at noSlash
        · exact ⟨inner, rfl, by simp⟩
      · rintro ⟨tail, rfl, _⟩
        exact ⟨tail ++ (['/'] ++ Text.join ['/'] (second :: texts)), by simp, by simp⟩

theorem GivenUp.nonempty {texts : List (List Char)} {segments other : List Segment}
    (given : GivenUp texts segments other) : texts.isEmpty = false ∧ other.isEmpty = false := by
  cases given <;> exact ⟨rfl, rfl⟩

theorem not_precedes_cons {own other : Segment} {others otherOthers : List Segment}
    (same : own.anonymous = other.anonymous) (behind : ¬Precedes others otherOthers) :
    ¬Precedes (own :: others) (other :: otherOthers) := by
  have sameBefore : own.before? = other.before? := by
    rw [← Segment.before?_anonymous own, same, Segment.before?_anonymous]
  intro precedes
  cases precedes with
  | literal parameter =>
      rw [← sameBefore] at parameter
      cases parameter
  | longer parameter otherParameter longer =>
      rw [parameter, otherParameter, Option.some.injEq] at sameBefore
      rw [sameBefore] at longer
      exact Nat.lt_irrefl _ longer
  | later _ further => exact behind further

theorem GivenUp.irrefl {texts : List (List Char)} {segments : List Segment} :
    ¬GivenUp texts segments segments := by
  intro given
  induction texts generalizing segments with
  | nil => cases given
  | cons text texts ih =>
      cases given with
      | here _ longer _ => exact Nat.lt_irrefl _ longer
      | later _ behind => exact ih behind

/-! ### Parameters at the head -/

def OpensWith (before : List Char) (segments : List Segment) : Prop :=
  ∃ segment others, segments = segment :: others ∧ segment.before? = some before

theorem prefix_of_fits {before text : List Char} {texts : List (List Char)}
    {segments : List Segment} (placed : WellPlaced segments) (opens : OpensWith before segments)
    (fits : Fits (text :: texts) segments) : before <+: text := by
  obtain ⟨segment, others, rfl, parameter⟩ := opens
  cases segment with
  | literal own => cases parameter
  | capture own name after =>
      cases parameter
      obtain ⟨tail, rfl, _⟩ :=
        (Segment.match?_capture_isSome _ _ _ _).mp ((fits_cons rfl).mp fits).1
      exact List.prefix_append before tail
  | rest own name =>
      cases parameter
      obtain ⟨tail, rfl, _⟩ := (fits_rest placed.1).mp fits
      exact List.prefix_append before tail

theorem OpensWith.not_precedes {before otherBefore : List Char} {segments others : List Segment}
    (opens : OpensWith before segments) (otherOpens : OpensWith otherBefore others)
    (shorter : otherBefore.length < before.length) : ¬Precedes others segments := by
  obtain ⟨segment, rest, rfl, parameter⟩ := opens
  obtain ⟨other, otherRest, rfl, otherParameter⟩ := otherOpens
  intro precedes
  cases precedes with
  | literal _ => cases otherParameter
  | longer first second longer =>
      rw [otherParameter, Option.some.injEq] at first
      rw [parameter, Option.some.injEq] at second
      subst first
      subst second
      exact Nat.lt_asymm shorter longer
  | later same _ =>
      rw [← Segment.before?_anonymous, ← same, Segment.before?_anonymous, otherParameter,
        Option.some.injEq] at parameter
      rw [parameter] at shorter
      exact Nat.lt_irrefl _ shorter

/-! ### The order is total -/

/-- What one text ends with is told by its length. -/
theorem anonymous_capture_eq {before name otherName after otherAfter text : List Char}
    (matched : ((Segment.capture before name after).match? text).isSome = true)
    (otherMatched : ((Segment.capture before otherName otherAfter).match? text).isSome = true)
    (length : after.length = otherAfter.length) :
    (Segment.capture before name after).anonymous =
      (Segment.capture before otherName otherAfter).anonymous := by
  obtain ⟨tail, rfl, atEnd, _⟩ := (Segment.match?_capture_isSome _ _ _ _).mp matched
  obtain ⟨otherEnd, _⟩ := (Segment.match?_capture_append_isSome _ _ _ _).mp otherMatched
  have suffix := List.suffix_of_suffix_length_le atEnd otherEnd length.le
  rw [suffix.eq_of_length length]
  rfl

/-- Where two routes have a parameter behind the same text, they part only in what is demanded
behind it, and there one is given up for the other. -/
theorem anonymous_eq_of_before {text before : List Char} {texts : List (List Char)}
    {own other : Segment} {others otherOthers : List Segment}
    (apart : Apart (own :: others) (other :: otherOthers))
    (fits : Fits (text :: texts) (own :: others))
    (otherFits : Fits (text :: texts) (other :: otherOthers))
    (kept : ¬GivenUp (text :: texts) (own :: others) (other :: otherOthers))
    (otherKept : ¬GivenUp (text :: texts) (other :: otherOthers) (own :: others))
    (ownBefore : own.before? = some before) (otherBefore : other.before? = some before) :
    own.anonymous = other.anonymous := by
  have single := apart.head ownBefore otherBefore
  have otherSingle := apart.symm.head otherBefore ownBefore
  obtain ⟨matched, later⟩ := (fits_cons single).mp fits
  obtain ⟨otherMatched, otherLater⟩ := (fits_cons otherSingle).mp otherFits
  have sameEnd := (fits_isEmpty later).trans (fits_isEmpty otherLater).symm
  obtain ⟨name, after, rfl⟩ := Segment.eq_capture single ownBefore
  obtain ⟨otherName, otherAfter, rfl⟩ := Segment.eq_capture otherSingle otherBefore
  rcases Nat.lt_trichotomy after.length otherAfter.length with shorter | same | longer
  · exact absurd (.here sameEnd shorter otherMatched) kept
  · exact anonymous_capture_eq matched otherMatched same
  · exact absurd (.here sameEnd.symm longer matched) otherKept

theorem precedes_or_precedes_head {text : List Char} {texts : List (List Char)}
    {own other : Segment} {others otherOthers : List Segment}
    (apart : Apart (own :: others) (other :: otherOthers))
    (placed : WellPlaced (own :: others)) (otherPlaced : WellPlaced (other :: otherOthers))
    (fits : Fits (text :: texts) (own :: others))
    (otherFits : Fits (text :: texts) (other :: otherOthers))
    (kept : ¬GivenUp (text :: texts) (own :: others) (other :: otherOthers))
    (otherKept : ¬GivenUp (text :: texts) (other :: otherOthers) (own :: others))
    (differ : own.anonymous ≠ other.anonymous) :
    Precedes (own :: others) (other :: otherOthers) ∨
      Precedes (other :: otherOthers) (own :: others) := by
  cases ownBefore : own.before? with
  | none =>
      obtain rfl := eq_literal_of_fits ownBefore fits
      cases otherBefore : other.before? with
      | none =>
          obtain rfl := eq_literal_of_fits otherBefore otherFits
          exact absurd rfl differ
      | some otherOpening => exact .inl (.literal otherBefore)
  | some opening =>
      cases otherBefore : other.before? with
      | none =>
          obtain rfl := eq_literal_of_fits otherBefore otherFits
          exact .inr (.literal ownBefore)
      | some otherOpening =>
          have start := prefix_of_fits placed ⟨_, _, rfl, ownBefore⟩ fits
          have otherStart := prefix_of_fits otherPlaced ⟨_, _, rfl, otherBefore⟩ otherFits
          rcases Nat.lt_trichotomy opening.length otherOpening.length with shorter | same | longer
          · exact .inr (.longer otherBefore ownBefore shorter)
          · have within := List.prefix_of_prefix_length_le start otherStart same.le
            rw [← within.eq_of_length same] at otherBefore
            exact absurd (anonymous_eq_of_before apart fits otherFits kept otherKept ownBefore
              otherBefore) differ
          · exact .inl (.longer ownBefore otherBefore longer)

/-- Of two routes that a path fits, and that are not given up for each other, one precedes the
other. -/
theorem precedes_or_precedes {texts : List (List Char)} {left right : List Segment}
    (apart : Apart left right) (leftPlaced : WellPlaced left) (rightPlaced : WellPlaced right)
    (leftFits : Fits texts left) (rightFits : Fits texts right)
    (leftKept : ¬GivenUp texts left right) (rightKept : ¬GivenUp texts right left) :
    Precedes left right ∨ Precedes right left := by
  induction texts generalizing left right with
  | nil =>
      obtain rfl := List.isEmpty_iff.mp (fits_isEmpty leftFits)
      obtain rfl := List.isEmpty_iff.mp (fits_isEmpty rightFits)
      exact absurd rfl apart.shape
  | cons text texts ih =>
      obtain ⟨own, others, rfl⟩ : ∃ own others, left = own :: others :=
        List.exists_cons_of_ne_nil fun empty => by simp [empty, Fits, matchSegments?] at leftFits
      obtain ⟨other, otherOthers, rfl⟩ : ∃ other otherOthers, right = other :: otherOthers :=
        List.exists_cons_of_ne_nil fun empty => by simp [empty, Fits, matchSegments?] at rightFits
      by_cases same : own.anonymous = other.anonymous
      · obtain ⟨_, leftFits⟩ := (fits_cons (apart.single same)).mp leftFits
        obtain ⟨_, rightFits⟩ := (fits_cons (apart.symm.single same.symm)).mp rightFits
        have behind := ih (apart.behind same) leftPlaced.behind rightPlaced.behind leftFits
          rightFits (fun givenUp => leftKept (.later same givenUp))
          (fun givenUp => rightKept (.later same.symm givenUp))
        exact behind.imp (.later same) (.later same.symm)
      · exact precedes_or_precedes_head apart leftPlaced rightPlaced leftFits rightFits leftKept
          rightKept same

end VirtualHosts.Dispatch
