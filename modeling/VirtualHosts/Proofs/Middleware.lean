/-
What the scope of a middleware takes in.

A scope is matched against the characters of a pathname.  Told by the segments between slashes,
a scope without a star at its end takes in a pathname whose first segments are its own; one that
ends in a slash wants at least one segment more.
-/

import VirtualHosts.Middleware
import VirtualHosts.Proofs.Text

namespace VirtualHosts

namespace Middleware

/-! ### What a scope asks of the characters -/

theorem covers_everything {scope : List Char} (everything : scope = [] ∨ scope = ['*'])
    (pathname : List Char) : covers scope pathname = true := by
  unfold covers
  rw [if_pos everything]

theorem covers_slash {scope : List Char} (slash : scope.getLast? = some '/')
    (pathname : List Char) : covers scope pathname = true ↔ scope <+: pathname := by
  unfold covers
  rw [if_neg, (Text.dropLast?_eq_none_iff '*' _).mpr, if_pos slash]
  · exact List.isPrefixOf_iff_prefix
  · rw [slash]
    decide
  · rintro (rfl | rfl) <;> cases slash

theorem covers_plain {scope : List Char} (nonempty : scope ≠ [])
    (noStar : scope.getLast? ≠ some '*') (noSlash : scope.getLast? ≠ some '/')
    (pathname : List Char) :
    covers scope pathname = true ↔ pathname = scope ∨ scope ++ ['/'] <+: pathname := by
  have short : ¬(scope = [] ∨ scope = ['*']) := by
    rintro (empty | star)
    · exact nonempty empty
    · apply noStar
      rw [star]
      rfl
  unfold covers
  rw [if_neg short, (Text.dropLast?_eq_none_iff '*' _).mpr noStar, if_neg noSlash]
  cases dropped : Text.dropBeginning? scope pathname with
  | none =>
      have outside := (Text.dropBeginning?_eq_none_iff scope pathname).mp dropped
      simp only [Bool.false_eq_true, false_iff, not_or]
      constructor
      · intro same
        exact outside (same ▸ List.prefix_refl scope)
      · intro below
        exact outside ((List.prefix_append scope ['/']).trans below)
  | some rest =>
      have whole := (Text.dropBeginning?_eq_some_iff scope pathname rest).mp dropped
      subst whole
      cases rest with
      | nil => simp
      | cons c rest =>
          rw [List.prefix_append_right_inj, List.cons_prefix_cons]
          have longer : scope ++ c :: rest ≠ scope := by simp
          simp only [beq_iff_eq, longer, List.nil_prefix, and_true, false_or]
          exact eq_comm

/-! ### What a scope asks of the segments -/

theorem covers_plain_iff_segments {scope : List Char} (nonempty : scope ≠ [])
    (noStar : scope.getLast? ≠ some '*') (noSlash : scope.getLast? ≠ some '/')
    (pathname : List Char) :
    covers scope pathname = true ↔ Text.segments scope <+: Text.segments pathname := by
  rw [covers_plain nonempty noStar noSlash, Text.slash_prefix_iff_segments]
  constructor
  · rintro (same | ⟨begins, _⟩)
    · rw [same]
    · exact begins
  · intro begins
    by_cases same : Text.segments scope = Text.segments pathname
    · exact .inl (Text.segments_injective same.symm)
    · exact .inr ⟨begins, same⟩

theorem covers_slash_iff_segments {scope : List Char} (slash : scope.getLast? = some '/')
    (pathname : List Char) :
    covers scope pathname = true ↔
      (Text.segments scope).dropLast <+: Text.segments pathname ∧
        (Text.segments scope).dropLast ≠ Text.segments pathname := by
  have whole : scope.dropLast ++ ['/'] = scope := List.dropLast_append_getLast? '/' slash
  have front : (Text.segments scope).dropLast = Text.segments scope.dropLast := by
    have cut := Text.segments_append_slash scope.dropLast []
    rw [whole] at cut
    rw [cut]
    exact List.dropLast_concat
  rw [covers_slash slash, front, ← Text.slash_prefix_iff_segments, whole]

/-- What a scope without a star takes in, it takes in with all that is below it. -/
theorem covers_below {scope pathname : List Char} (nonempty : scope ≠ [])
    (noStar : scope.getLast? ≠ some '*') (own : covers scope pathname = true)
    (rest : List Char) : covers scope (pathname ++ '/' :: rest) = true := by
  by_cases slash : scope.getLast? = some '/'
  · rw [covers_slash slash] at own ⊢
    exact own.trans (List.prefix_append _ _)
  · rw [covers_plain_iff_segments nonempty noStar slash] at own ⊢
    rw [Text.segments_append_slash]
    exact own.trans (List.prefix_append _ _)

/-- Comparing characters comes to comparing whole segments. -/
theorem scopes_respect_segments {α : Type} (middleware : Middleware α) (pathname : String)
    (nonempty : middleware.pathname ≠ "")
    (noStar : middleware.pathname.toList.getLast? ≠ some '*') :
    let scope := Text.segments middleware.pathname.toList
    let path := Text.segments pathname.toList
    (middleware.pathname.toList.getLast? ≠ some '/' →
        (middleware.appliesTo pathname = true ↔ scope <+: path)) ∧
      (middleware.pathname.toList.getLast? = some '/' →
        (middleware.appliesTo pathname = true ↔
          scope.dropLast <+: path ∧ scope.dropLast ≠ path)) ∧
      (middleware.appliesTo pathname = true →
        ∀ text, middleware.appliesTo (pathname ++ "/" ++ text) = true) := by
  have chars : middleware.pathname.toList ≠ [] := by
    rw [ne_eq, String.toList_eq_nil_iff]
    exact nonempty
  refine ⟨fun noSlash => ?_, fun slash => ?_, fun own text => ?_⟩
  · exact covers_plain_iff_segments chars noStar noSlash pathname.toList
  · exact covers_slash_iff_segments slash pathname.toList
  · have below := covers_below chars noStar own text.toList
    rw [appliesTo, String.toList_append, String.toList_append, List.append_assoc]
    exact below

theorem scopes_respect_segments_doubled :
    let own : Middleware Unit := ⟨"/api", ()⟩
    let inner : Middleware Unit := ⟨"/api/", ()⟩
    (own.pathname ≠ "" ∧ own.pathname.toList.getLast? ≠ some '*') ∧
      (inner.pathname ≠ "" ∧ inner.pathname.toList.getLast? ≠ some '*') ∧
      own.appliesTo "/apix" = false ∧ inner.appliesTo "/api" = false ∧
      inner.appliesTo "/api//users" = true ∧
      ∀ text, own.appliesTo ("/api/" ++ "/" ++ text) = true := by
  intro own inner
  have ownScope : own.pathname ≠ "" ∧ own.pathname.toList.getLast? ≠ some '*' := by decide
  have innerScope : inner.pathname ≠ "" ∧ inner.pathname.toList.getLast? ≠ some '*' := by decide
  have ofOwn (pathname : String) :=
    scopes_respect_segments own pathname ownScope.1 ownScope.2
  have ofInner (pathname : String) :=
    (scopes_respect_segments inner pathname innerScope.1 innerScope.2).2.1 (by decide)
  refine ⟨ownScope, innerScope, ?_, ?_, ?_, ?_⟩
  · rw [Bool.eq_false_iff, ne_eq, (ofOwn "/apix").1 (by decide)]
    decide
  · rw [Bool.eq_false_iff, ne_eq, ofInner "/api"]
    decide
  · rw [ofInner "/api//users"]
    decide
  · apply (ofOwn "/api/").2.2
    rw [(ofOwn "/api/").1 (by decide)]
    decide

end Middleware

end VirtualHosts
