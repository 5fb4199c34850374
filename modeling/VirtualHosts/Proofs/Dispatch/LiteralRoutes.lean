/-
Exact routes without parameters.

The text of such a route has the braces of the pathname twice and is otherwise the
pathname.  It is read back as the segments of the pathname, it is in conflict with the
same pathname only, and it is found for that pathname only.
-/

import VirtualHosts.Dispatch.RouteSet
import VirtualHosts.Proofs.Dispatch.Patterns

namespace VirtualHosts.Dispatch

/-! ### Reading the text -/

def isBrace (c : Char) : Bool :=
  decide (c = '{' ∨ c = '}')

def markOf (c : Char) : Mark :=
  ⟨c, isBrace c⟩

theorem pairBraces_cons_of_not_isBrace {c : Char} (plain : isBrace c = false)
    (rest : List Char) : pairBraces (c :: rest) = ⟨c, false⟩ :: pairBraces rest := by
  have notOpen : c ≠ '{' := by
    rintro rfl
    cases plain
  have notClose : c ≠ '}' := by
    rintro rfl
    cases plain
  rw [pairBraces.eq_def]
  split
  · rename_i same
    exact absurd (List.cons.inj same).1 notOpen
  · rename_i same
    exact absurd (List.cons.inj same).1 notClose
  · rename_i same
    cases same
    rfl
  · rename_i same
    cases same

def plainText (text : String) : List Char :=
  (pairBraces text.toList).map Mark.char

theorem pairBraces_doubleBraces_append (chars rest : List Char) :
    pairBraces (doubleBraces chars ++ rest) = chars.map markOf ++ pairBraces rest := by
  induction chars with
  | nil => rfl
  | cons c chars ih =>
      cases brace : isBrace c with
      | false =>
          have single : doubleBraces (c :: chars) = c :: doubleBraces chars := by
            have neither : ¬(c = '{' ∨ c = '}') := of_decide_eq_false brace
            simp [doubleBraces, neither]
          rw [single, List.cons_append, pairBraces_cons_of_not_isBrace brace, ih,
            List.map_cons, markOf, brace]
          rfl
      | true =>
          rcases (of_decide_eq_true brace : c = '{' ∨ c = '}') with rfl | rfl
          all_goals
            rw [List.map_cons, List.cons_append, ← ih]
            rfl

theorem plainText_doubleBraces (chars : List Char) :
    plainText (.ofList (doubleBraces chars)) = chars := by
  have whole := pairBraces_doubleBraces_append chars []
  rw [List.append_nil] at whole
  rw [plainText, String.toList_ofList, whole, pairBraces, List.append_nil, List.map_map]
  exact List.map_id _

/-- Behind no parameter nothing is displaced: a pair counts at once, and leaves nothing. -/
theorem creditsBehind_zero (c : Char) : creditsBehind c [0] = [] := by
  have positive : ¬c.utf8Size ≤ 0 := Nat.not_le.mpr c.utf8Size_pos
  simp [creditsBehind, positive]

theorem atoms_cons_markOf (left : Nat) (c : Char) (marks : List Mark) :
    atoms left .outside [] (markOf c :: marks) =
      (atoms left .outside [] marks).map (.char c :: ·) := by
  rw [atoms.eq_def]
  cases brace : isBrace c with
  | true =>
      simp only [markOf, brace, credits, if_true, creditsBehind_zero, List.contains_cons,
        beq_self_eq_true, Bool.true_or]
  | false =>
      have neither : ¬(c = '{' ∨ c = '}') := of_decide_eq_false brace
      simp only [markOf, brace, credits, creditsBehind, List.filter_nil, List.map_nil,
        List.contains_nil, Bool.false_eq_true, if_false,
        if_neg (mt Or.inl neither), if_neg (mt Or.inr neither)]

theorem atoms_markOf_append (left : Nat) (chars : List Char) (marks : List Mark) :
    atoms left .outside [] (chars.map markOf ++ marks) =
      (atoms left .outside [] marks).map (chars.map Atom.char ++ ·) := by
  induction chars with
  | nil =>
      rw [List.map_nil, List.nil_append]
      cases atoms left .outside [] marks <;> rfl
  | cons c chars ih =>
      rw [List.map_cons, List.cons_append, atoms_cons_markOf, ih]
      cases atoms left .outside [] marks <;> rfl

theorem splitAtoms_char (chars : List Char) :
    splitAtoms (chars.map Atom.char) = (Text.segments chars).map (·.map Atom.char) := by
  induction chars with
  | nil => rfl
  | cons c chars ih =>
      obtain ⟨first, others, found⟩ := List.exists_cons_of_ne_nil (Text.segments_ne_nil chars)
      rw [List.map_cons, splitAtoms, ih, Text.segments_cons, found]
      by_cases slash : c = '/'
      · subst slash
        rfl
      · have differ : (Atom.char c == Atom.char '/') = false := by
          simp [slash]
        rw [differ, if_neg slash]
        rfl

theorem spanLiteral_char (chars : List Char) :
    spanLiteral (chars.map Atom.char) = (chars, []) := by
  induction chars with
  | nil => rfl
  | cons c chars ih => rw [List.map_cons, spanLiteral, ih]

theorem readSegments_char (parts : List (List Char)) :
    readSegments (parts.map (·.map Atom.char)) = (parts.map Segment.literal, none) := by
  induction parts with
  | nil => rfl
  | cons first rest ih =>
      rw [List.map_cons, readSegments, Segment.ofAtoms, spanLiteral_char]
      simp only [ih, List.map_cons]

/-! ### Literal routes in a set -/

def literalSegments (chars : List Char) : List Segment :=
  (Text.segments chars).map Segment.literal

theorem literalSegments_injective {left right : List Char}
    (same : literalSegments left = literalSegments right) : left = right := by
  refine Text.segments_injective ((List.map_injective_iff.mpr ?_) same)
  intro first second equal
  cases equal
  rfl

theorem sameShape_literalSegments (left right : List Char) :
    ExactRoute.sameShape (literalSegments left) (literalSegments right) = decide (left = right) := by
  have anonymous (chars : List Char) :
      (literalSegments chars).map Segment.anonymous = literalSegments chars := by
    rw [literalSegments, List.map_map]
    rfl
  rw [ExactRoute.sameShape, anonymous, anonymous, Bool.eq_iff_iff, beq_iff_eq,
    decide_eq_true_iff]
  exact ⟨literalSegments_injective, fun same => by rw [same]⟩

variable {β : Type}

/-- What no route contends with at any place has no contenders. -/
theorem contenders_eq_nil {routes : RouteSet β} {segments : List Segment}
    (never : ∀ depth, ∀ route ∈ routes,
      ExactRoute.contends (segments.take (depth + 1)) route = false) :
    routes.contenders segments = [] := by
  dsimp only [RouteSet.contenders]
  rw [List.find?_eq_none.mpr, Option.getD_none]
  intro found member
  obtain ⟨place, atPlace, rfl⟩ := List.mem_map.mp member
  obtain ⟨depth, _, rfl⟩ := List.mem_map.mp atPlace
  have empty : routes.filter (ExactRoute.contends (segments.take (depth + 1))) = [] := by
    rw [List.filter_eq_nil_iff]
    intro route known
    rw [never depth route known]
    exact Bool.false_ne_true
  rw [empty]
  simp

theorem reported?_nil : reported? ([] : List (ExactRoute β)) = none := by
  simp [reported?, descend]

theorem contenders_literal (routes : RouteSet β) (parts : List (List Char)) :
    routes.contenders (parts.map Segment.literal) = [] := by
  refine contenders_eq_nil fun depth route _ => ?_
  have noParameter :
      ((parts.map Segment.literal).take (depth + 1)).getLast?.bind Segment.before? = none := by
    cases last : ((parts.map Segment.literal).take (depth + 1)).getLast? with
    | none => rfl
    | some segment =>
        obtain ⟨part, _, rfl⟩ :=
          List.mem_map.mp (List.mem_of_mem_take (List.mem_of_getLast? last))
        rfl
  simp [ExactRoute.contends, ExactRoute.meets, noParameter]

/-- A pathname without parameters is refused only if it is in the set already. -/
theorem insert_literal (routes : RouteSet β) (chars : List Char) (value : β) :
    routes.insert (.ofList (doubleBraces chars)) value =
      match List.find? (ExactRoute.sameShape (literalSegments chars) ·.segments) routes with
      | some earlier => .error (.refused (.conflict earlier.display))
      | none => .ok (routes ++ [⟨literalSegments chars, value⟩]) := by
  have read : atoms mostCaptures .outside [] (pairBraces (doubleBraces chars)) =
      .ok (chars.map Atom.char) := by
    have whole := pairBraces_doubleBraces_append chars []
    rw [List.append_nil] at whole
    rw [whole, atoms_markOf_append]
    simp [pairBraces, atoms, Except.map]
  rw [RouteSet.insert, String.toList_ofList, read]
  simp only [splitAtoms_char, readSegments_char, contenders_literal, reported?_nil]
  rw [← literalSegments]
  cases List.find? (ExactRoute.sameShape (literalSegments chars) ·.segments) routes with
  | none => rfl
  | some earlier => rfl

/-! ### Literal routes in a search -/

theorem search_nil (first : Candidate β) (rest : List (Candidate β)) :
    search [] (first :: rest) = ((first :: rest).find? (·.2.isEmpty)).map Prod.fst := by
  rw [search]
  intro impossible
  cases impossible

theorem search_cons (text : List Char) (texts : List (List Char)) (first : Candidate β)
    (rest : List (Candidate β)) :
    search (text :: texts) (first :: rest) =
      (search texts ((first :: rest).filterMap (·.afterLiteral? text))).or
        ((cuts text).findSome? fun (before, tail) =>
          if tail.isEmpty ∧ texts.isEmpty then none
          else
            match (first :: rest).find? (·.capturesRest before) with
            | some (route, _) => some route
            | none =>
                search texts <| settle <|
                  (first :: rest).filterMap (·.afterCapture? before tail texts.isEmpty)) := by
  rw [search]
  · cases search texts ((first :: rest).filterMap (·.afterLiteral? text)) <;> rfl
  · intro impossible
    cases impossible

theorem afterLiteral?_any (text : List Char) (texts : List (List Char))
    (candidate : Candidate β) :
    ((candidate.afterLiteral? text).any (·.2 == texts.map Segment.literal)) =
      (candidate.2 == (text :: texts).map Segment.literal) := by
  obtain ⟨route, segments⟩ := candidate
  cases segments with
  | nil => rfl
  | cons segment others =>
      cases segment with
      | literal own =>
          rw [Candidate.afterLiteral?, Bool.eq_iff_iff]
          by_cases same : own = text
          · simp [same]
          · simp [same]
      | capture before name after => rfl
      | rest before name => rfl

theorem afterLiteral?_route {text : List Char} {candidate next : Candidate β}
    (passed : candidate.afterLiteral? text = some next) :
    next.1 = candidate.1 ∧ candidate.2 = .literal text :: next.2 := by
  obtain ⟨route, segments⟩ := candidate
  cases segments with
  | nil => cases passed
  | cons segment others =>
      cases segment with
      | literal own =>
          rw [Candidate.afterLiteral?] at passed
          split at passed
          · rename_i same
            cases passed
            exact ⟨rfl, by rw [same]⟩
          · cases passed
      | capture before name after => cases passed
      | rest before name => cases passed

/-- Where only literal segments are left, no parameter is tried. -/
theorem cuts_literal {candidates : List (Candidate β)}
    (literal : ∀ candidate ∈ candidates, ∃ parts : List (List Char),
      candidate.2 = parts.map Segment.literal)
    (text : List Char) (texts : List (List Char)) :
    ((cuts text).findSome? fun (before, tail) =>
      if tail.isEmpty ∧ texts.isEmpty then none
      else
        match candidates.find? (·.capturesRest before) with
        | some (route, _) => some route
        | none =>
            search texts <| settle <|
              candidates.filterMap (·.afterCapture? before tail texts.isEmpty)) = none := by
  rw [List.findSome?_eq_none_iff]
  rintro ⟨before, tail⟩ _
  have noRest : candidates.find? (·.capturesRest before) = none := by
    rw [List.find?_eq_none]
    rintro ⟨route, segments⟩ member
    obtain ⟨parts, rfl⟩ := literal _ member
    cases parts <;> simp [Candidate.capturesRest]
  have noCapture : candidates.filterMap (·.afterCapture? before tail texts.isEmpty) = [] := by
    rw [List.filterMap_eq_nil_iff]
    rintro ⟨route, segments⟩ member
    obtain ⟨parts, rfl⟩ := literal _ member
    cases parts <;> rfl
  simp only [noRest, noCapture]
  split
  · rfl
  · cases texts <;> rfl

theorem search_literal (texts : List (List Char)) (candidates : List (Candidate β))
    (literal : ∀ candidate ∈ candidates, ∃ parts : List (List Char),
      candidate.2 = parts.map Segment.literal) :
    search texts candidates =
      (candidates.find? (·.2 == texts.map Segment.literal)).map Prod.fst := by
  induction texts generalizing candidates with
  | nil =>
      cases candidates with
      | nil => rfl
      | cons first rest =>
          rw [search_nil]
          congr 2
          funext candidate
          cases candidate.2 <;> rfl
  | cons text texts ih =>
      cases candidates with
      | nil => rfl
      | cons first rest =>
          -- What passes a literal segment has literal segments left only.
          have passed := ih ((first :: rest).filterMap (·.afterLiteral? text)) (by
            intro next member
            obtain ⟨candidate, given, step⟩ := List.mem_filterMap.mp member
            obtain ⟨parts, shape⟩ := literal candidate given
            have split := (afterLiteral?_route step).2
            rw [shape] at split
            cases parts with
            | nil => cases split
            | cons part parts => exact ⟨parts, (List.cons.inj split).2.symm⟩)
          rw [List.find?_filterMap] at passed
          simp only [afterLiteral?_any] at passed
          rw [search_cons, passed]
          cases found : (first :: rest).find? (·.2 == (text :: texts).map Segment.literal) with
          | none =>
              rw [Option.bind_none, Option.map_none, Option.none_or]
              exact cuts_literal literal text texts
          | some candidate =>
              have shape := List.find?_some found
              obtain ⟨route, segments⟩ := candidate
              rw [beq_iff_eq] at shape
              dsimp only at shape
              subst shape
              simp [Candidate.afterLiteral?]

theorem matchSegments?_literal (texts : List (List Char)) :
    matchSegments? (texts.map Segment.literal) texts = some [] := by
  induction texts with
  | nil => rfl
  | cons text texts ih =>
      rw [List.map_cons, matchSegments?, Segment.isRest, if_neg Bool.false_ne_true,
        Segment.match?, if_pos rfl, ih]
      rfl

/-- A set of literal routes answers a path with the first route for it alone. -/
theorem find?_literal {routes : RouteSet β}
    (literal : ∀ route ∈ routes, ∃ chars, route.segments = literalSegments chars)
    (path : String) :
    routes.find? path =
      (List.find? (·.segments == literalSegments path.toList) routes).map (·, []) := by
  have searched := search_literal (Text.segments path.toList)
    (routes.map fun route => (route, route.segments)) (by
      intro candidate member
      obtain ⟨route, held, rfl⟩ := List.mem_map.mp member
      obtain ⟨chars, shape⟩ := literal route held
      exact ⟨Text.segments chars, shape⟩)
  rw [List.find?_map, Option.map_map] at searched
  unfold RouteSet.find?
  dsimp only
  rw [searched]
  simp only [Function.comp_def]
  rw [← literalSegments]
  cases found : List.find? (·.segments == literalSegments path.toList) routes with
  | none => rfl
  | some route =>
      have shape := List.find?_some found
      rw [beq_iff_eq] at shape
      simp only [Option.map_some, Option.bind_eq_bind, Option.bind_some]
      rw [shape, literalSegments, matchSegments?_literal]
      rfl

end VirtualHosts.Dispatch
