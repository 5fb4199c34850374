/-
Middleware that guards an endpoint.

Which middleware runs in front of an endpoint is settled by its pathname, but the requests
that reach it are those of the patterns of the pathname.  A scope that takes in every such
request takes in the pathname as well, with one exception: the scopes of all paths below the
root do not take in the pathname that stands for all of them.
-/

import VirtualHosts.Dispatch
import VirtualHosts.Proofs.Compilation.Chains
import VirtualHosts.Proofs.Dispatch.Locations
import VirtualHosts.Proofs.Middleware

namespace VirtualHosts

namespace Middleware

/-! ### What a scope asks of a pathname -/

theorem covers_star {scope beginning : List Char} (nonempty : beginning ≠ [])
    (ends : scope = beginning ++ ['*']) (pathname : List Char) :
    covers scope pathname = true ↔ beginning <+: pathname := by
  have longer := Dispatch.Pattern.not_root_of_star nonempty ends
  unfold covers
  rw [if_neg fun short => longer (short.imp_right .inl),
    (Text.dropLast?_eq_some_iff '*' _ beginning).mpr ends]
  exact List.isPrefixOf_iff_prefix

/-- A scope asks for nothing, or for a beginning, or for itself and what follows it after a
slash. -/
theorem covers_kinds (scope : List Char) :
    (scope = [] ∨ scope = ['*']) ∨
    (∃ beginning, beginning ≠ [] ∧
      (scope = beginning ++ ['*'] ∨ scope = beginning ∧ beginning.getLast? = some '/') ∧
      ∀ pathname, covers scope pathname = true ↔ beginning <+: pathname) ∨
    (scope ≠ [] ∧ scope.getLast? ≠ some '/' ∧
      ∀ pathname, covers scope pathname = true ↔
        pathname = scope ∨ scope ++ ['/'] <+: pathname) := by
  by_cases everything : scope = [] ∨ scope = ['*']
  · exact .inl everything
  · have nonempty : scope ≠ [] := fun empty => everything (.inl empty)
    cases ends : Text.dropLast? '*' scope with
    | some beginning =>
        have whole := (Text.dropLast?_eq_some_iff '*' scope beginning).mp ends
        have long : beginning ≠ [] := by
          rintro rfl
          exact everything (.inr whole)
        exact .inr (.inl ⟨beginning, long, .inl whole, covers_star long whole⟩)
    | none =>
        have noStar := (Text.dropLast?_eq_none_iff '*' scope).mp ends
        by_cases slash : scope.getLast? = some '/'
        · exact .inr (.inl ⟨scope, nonempty, .inr ⟨rfl, slash⟩, covers_slash slash⟩)
        · exact .inr (.inr ⟨nonempty, slash, covers_plain nonempty noStar slash⟩)

/-! ### Scopes that take in all that is answered -/

/-- The scopes of everything below the root do not take in the pathname that stands for it. -/
def Overlooks (scope pathname : String) : Prop :=
  (scope = "/" ∨ scope = "/*") ∧ (pathname = "" ∨ pathname = anyPath)

instance (scope pathname : String) : Decidable (Overlooks scope pathname) :=
  inferInstanceAs (Decidable (_ ∧ _))

theorem scope_of_covers_root {scope : List Char} (covered : covers scope ['/'] = true) :
    (scope = [] ∨ scope = ['*']) ∨ scope = ['/'] ∨ scope = ['/', '*'] := by
  rcases covers_kinds scope with everything | ⟨beginning, nonempty, ends, asks⟩ |
    ⟨nonempty, noSlash, asks⟩
  · exact .inl everything
  · right
    have root : beginning = ['/'] := by
      have begins := (asks ['/']).mp covered
      rw [List.prefix_cons_iff] at begins
      rcases begins with empty | ⟨rest, whole, short⟩
      · exact absurd empty nonempty
      · rw [whole, List.prefix_nil.mp short]
    rcases ends with star | ⟨same, _⟩
    · right
      rw [star, root]
      rfl
    · left
      rw [same, root]
  · exfalso
    rcases (asks ['/']).mp covered with same | below
    · apply noSlash
      rw [← same]
      rfl
    · have short := below.length_le
      rw [List.length_append] at short
      have positive := List.length_pos_iff.mpr nonempty
      simp only [List.length_cons, List.length_nil] at short
      omega

/-- A scope that takes in a beginning, and what follows it without a slash, takes in the
beginning with a star. -/
theorem covers_concat_star {scope beginning : List Char} {c : Char} (letter : c ≠ '/')
    (own : covers scope beginning = true) (longer : covers scope (beginning ++ [c]) = true) :
    covers scope (beginning ++ ['*']) = true := by
  rcases covers_kinds scope with everything | ⟨asked, _, _, asks⟩ | ⟨_, _, asks⟩
  · exact covers_everything everything _
  · rw [asks] at own ⊢
    exact own.trans (List.prefix_append _ _)
  · rw [asks] at own longer ⊢
    rcases own with same | below
    · exfalso
      subst same
      rcases longer with same | slash
      · simp at same
      · rw [List.prefix_append_right_inj, List.cons_prefix_cons] at slash
        exact letter slash.1.symm
    · exact .inr (below.trans (List.prefix_append _ _))

theorem covers_root_iff {scope pathname : String} (root : pathname = "" ∨ pathname = anyPath)
    (covered : covers scope.toList ['/'] = true) :
    covers scope.toList pathname.toList = true ↔ ¬Overlooks scope pathname := by
  unfold Overlooks
  rw [and_iff_left root, ← String.toList_inj, ← String.toList_inj]
  rcases scope_of_covers_root covered with everything | slash | star
  · rw [iff_true_intro (covers_everything everything _), true_iff]
    rcases everything with empty | star
    · rw [empty]
      decide
    · rw [star]
      decide
  · rw [slash]
    rcases root with rfl | rfl <;> decide
  · rw [star]
    rcases root with rfl | rfl <;> decide

/-- The paths with a slash in front that are answered for a pathname. -/
def Answered (pathname path : String) : Prop :=
  Text.startsWith path "/" = true ∧
    ∃ pattern ∈ Dispatch.Pattern.ofPathname pathname, pattern.Answers path

/-- A pathname without parameters that answers a path with a slash in front has one itself, and
answers itself. -/
theorem answered_self {pathname path : String} (proper : Dispatch.Pattern.Proper pathname)
    (unmarked : (Text.segments pathname.toList).any Dispatch.isMarked = false)
    (answered : Answered pathname path) : Answered pathname pathname := by
  have plain : ∀ segment ∈ Text.segments pathname.toList,
      Dispatch.namesParameter segment = false := by
    intro segment member
    exact Dispatch.namesParameter_of_isMarked
      (Bool.eq_false_iff.mpr (List.any_eq_false.mp unmarked segment member))
  have patterns := Dispatch.Pattern.ofPathname_proper proper
  rw [if_neg (Bool.eq_false_iff.mp unmarked)] at patterns
  obtain ⟨slash, pattern, member, answers⟩ := answered
  have own : Text.startsWith pathname "/" = true := by
    rw [Text.startsWith_iff] at slash ⊢
    rw [patterns, List.mem_cons, List.mem_singleton] at member
    rcases member with rfl | rfl
    · rwa [← (Dispatch.answers_exact_literal plain path).mp answers]
    · rw [Dispatch.Pattern.Answers, Text.startsWith_iff, String.toList_ofList] at answers
      have short : ['/'].length ≤ (Text.stripEnd '/' pathname.toList ++ ['/']).length := by simp
      have begins := List.prefix_of_prefix_length_le slash answers short
      exact (Text.slash_prefix_stripEnd proper.nonempty).mp begins
  refine ⟨own, .exact (.ofList (Dispatch.patternText pathname.toList)), ?_, ?_⟩
  · rw [patterns]
    exact List.mem_cons_self
  · exact (Dispatch.answers_exact_literal plain pathname).mpr rfl

/-- The pathnames of the root are answered at the root. -/
theorem answered_root {pathname : String}
    (root : pathname.toList = [] ∨ pathname.toList = ['*'] ∨ pathname.toList = ['/']) :
    Answered pathname "/" := by
  refine ⟨by decide, .below "/", ?_, ?_⟩
  · rw [Dispatch.Pattern.ofPathname_root root]
    exact List.mem_singleton_self _
  · change Text.startsWith "/" "/" = true
    decide

/-- A pathname with a star at its end that answers a path with a slash in front answers whatever
begins as it does, and a scope that takes in all of that takes in the pathname. -/
theorem covers_of_answered_star {scope pathname path : String} {beginning : List Char}
    (nonempty : beginning ≠ []) (ends : pathname.toList = beginning ++ ['*'])
    (answered : Answered pathname path)
    (all : ∀ path, Answered pathname path → covers scope.toList path.toList = true) :
    covers scope.toList pathname.toList = true := by
  have patterns := Dispatch.Pattern.ofPathname_star nonempty ends
  have begins : "/".toList <+: beginning := by
    obtain ⟨slash, pattern, member, answers⟩ := answered
    rw [patterns, List.mem_singleton] at member
    subst member
    rw [Dispatch.Pattern.Answers, Text.startsWith_iff, String.toList_ofList] at answers
    rw [Text.startsWith_iff] at slash
    have short : "/".toList.length ≤ beginning.length := List.length_pos_iff.mpr nonempty
    exact List.prefix_of_prefix_length_le slash answers short
  have below (rest : List Char) : covers scope.toList (beginning ++ rest) = true := by
    have covered := all (.ofList (beginning ++ rest)) ⟨?_, .below (.ofList beginning), ?_, ?_⟩
    · rwa [String.toList_ofList] at covered
    · simp only [Text.startsWith_iff, String.toList_ofList]
      exact begins.trans (List.prefix_append _ _)
    · rw [patterns]
      exact List.mem_singleton_self _
    · rw [Dispatch.Pattern.Answers, Text.startsWith_iff, String.toList_ofList,
        String.toList_ofList]
      exact List.prefix_append _ _
  have own := below []
  rw [List.append_nil] at own
  rw [ends]
  exact covers_concat_star (by decide : 'x' ≠ '/') own (below ['x'])

/-- A scope that takes in all that is answered for a pathname without parameters takes in the
pathname itself, unless it overlooks it. -/
theorem covers_iff_of_answered {scope pathname : String}
    (unmarked : (Text.segments pathname.toList).any Dispatch.isMarked = false)
    (some : ∃ path, Answered pathname path)
    (all : ∀ path, Answered pathname path → covers scope.toList path.toList = true) :
    covers scope.toList pathname.toList = true ↔ ¬Overlooks scope pathname := by
  obtain ⟨path, answered⟩ := some
  rcases Dispatch.Pattern.kinds pathname with root | ⟨beginning, nonempty, ends⟩ | proper
  · have covered := all "/" (answered_root root)
    rcases root with empty | star | slash
    · exact covers_root_iff (.inl (String.toList_inj.mp empty)) covered
    · exact covers_root_iff (.inr (String.toList_inj.mp star)) covered
    · obtain rfl : pathname = "/" := String.toList_inj.mp slash
      rw [iff_true_left covered]
      rintro ⟨_, impossible⟩
      revert impossible
      decide
  · rw [iff_true_left (covers_of_answered_star nonempty ends answered all)]
    rintro ⟨_, rfl | rfl⟩
    · simp at ends
    · exact nonempty (List.append_cancel_right (show beginning ++ ['*'] = [] ++ ['*'] from ends.symm))
  · rw [iff_true_left (all pathname (answered_self proper unmarked answered))]
    rintro ⟨_, rfl | rfl⟩
    · exact proper.nonempty rfl
    · exact proper.noStar rfl

end Middleware

/-- The middleware that runs in front of the endpoint at a position. -/
def Position.guards {α : Type} (position : Position α) : List (Middleware α) :=
  position.scope.filter (·.appliesTo position.endpoint.pathname)

namespace Compilation

variable {α : Type}

theorem registration_of_position {settings : Settings} {backend : Backend α}
    {app : Application α} {compilation : Compilation α}
    (compiled : build settings backend app = .ok compilation) {host : Host α}
    (declared : host ∈ app.hosts) {position : Position α} (placed : host.Holds position)
    {registration : Registration α}
    (made : Walk.registration? host position.scope position.endpoint = some registration) :
    registration ∈ compilation.backend.getD [] := by
  rw [build_registrations compiled]
  apply List.mem_flatMap.mpr
  refine ⟨host, declared, ?_⟩
  exact List.mem_filterMap.mpr ⟨position, (host.mem_positions_iff position).mpr placed, made⟩

/-- An endpoint that the process answers, with a pathname without parameters, is registered with
the middleware that guards it.  A middleware in front of it, in its own route or one around it,
that applies to every path answered for the endpoint is among them, unless its scope overlooks
the pathname. -/
theorem covering_middleware_guards {settings : Settings} {backend : Backend α}
    {app : Application α} {compilation : Compilation α}
    (compiled : build settings backend app = .ok compilation) {host : Host α}
    (declared : host ∈ app.hosts) {position : Position α} (placed : host.Holds position)
    {handler : α} (process : position.endpoint.handler? = some handler)
    (unmarked : (Text.segments position.endpoint.pathname.toList).any Dispatch.isMarked = false)
    (some : ∃ path, Middleware.Answered position.endpoint.pathname path)
    {middleware : Middleware α} (inScope : middleware ∈ position.scope)
    (all : ∀ path, Middleware.Answered position.endpoint.pathname path →
      middleware.appliesTo path = true) :
    (middleware ∈ position.guards ↔
      ¬Middleware.Overlooks middleware.pathname position.endpoint.pathname) ∧
    (⟨host.hostname, host.options.port, position.endpoint.pathname, position.endpoint.verbs,
      position.guards.map Middleware.handler ++ [handler]⟩ : Registration α) ∈
        compilation.backend.getD [] := by
  constructor
  · rw [Position.guards, List.mem_filter, and_iff_right inScope]
    exact Middleware.covers_iff_of_answered unmarked some all
  · apply registration_of_position compiled declared placed
    rw [Walk.registration?, process, Option.map_some]
    rfl

def administeredBase : List (Entry Nat) :=
  [.middleware ⟨"/", 10⟩, .endpoint ⟨"*", .every, .process 1⟩]

def administered : Application Nat := {
  hosts := [{
    hostname := "a.test"
    options := {}
    base := administeredBase
    routes := [⟨"/admin", [
      .middleware ⟨"/admin", 20⟩,
      .route "/admin/tools" [.endpoint ⟨"/admin/tools/*", .every, .process 2⟩]]⟩] }] }

def toolsPosition : Position Nat :=
  Position.behind administeredBase <| Position.behind [.middleware ⟨"/admin", 20⟩]
    ⟨[[]], ⟨"/admin/tools/*", .every, .process 2⟩⟩

theorem toolsPosition_holds : ∀ host ∈ administered.hosts, host.Holds toolsPosition := by
  intro host declared
  rw [List.mem_singleton.mp declared]
  apply Host.Holds.route (List.mem_singleton_self _)
  exact .route [.middleware ⟨"/admin", 20⟩] [] "/admin/tools" (.endpoint [] [] _)

theorem tools_guarded :
    ∃ compilation, build {} Dispatch.backend administered = .ok compilation ∧
      (∃ path, Middleware.Answered toolsPosition.endpoint.pathname path) ∧
      (∀ path, Middleware.Answered toolsPosition.endpoint.pathname path →
        (⟨"/admin", 20⟩ : Middleware Nat).appliesTo path = true) ∧
      (⟨"/admin", 20⟩ : Middleware Nat) ∈ toolsPosition.guards ∧
      (⟨"a.test", 80, "/admin/tools/*", .every, [10, 20, 2]⟩ : Registration Nat) ∈
        compilation.backend.getD [] := by
  have succeeds : (build {} Dispatch.backend administered).isOk = true := by decide +kernel
  obtain ⟨compilation, compiled⟩ := (isOk_iff_exists _).mp succeeds
  have only : administered.hosts.head? = some _ := rfl
  have declared := List.mem_of_mem_head? only
  have patterns : Dispatch.Pattern.ofPathname toolsPosition.endpoint.pathname =
      [.below "/admin/tools/"] := by decide
  have some : ∃ path, Middleware.Answered toolsPosition.endpoint.pathname path := by
    refine ⟨"/admin/tools/users", by decide, .below "/admin/tools/", by decide, ?_⟩
    change Text.startsWith "/admin/tools/users" "/admin/tools/" = true
    decide
  have all (path : String) (answered : Middleware.Answered toolsPosition.endpoint.pathname path) :
      (⟨"/admin", 20⟩ : Middleware Nat).appliesTo path = true := by
    obtain ⟨_, pattern, member, answers⟩ := answered
    rw [patterns, List.mem_singleton] at member
    subst member
    have begins := (Text.startsWith_iff path "/admin/tools/").mp answers
    apply (Middleware.covers_plain (by decide) (by decide) (by decide) path.toList).mpr
    right
    exact List.IsPrefix.trans ⟨"tools/".toList, rfl⟩ begins
  have guarded := covering_middleware_guards compiled declared (toolsPosition_holds _ declared)
    rfl (by decide) some (by decide) all
  exact ⟨compilation, compiled, some, all, guarded.1.mpr (by decide), guarded.2⟩

def catchAllPosition : Position Nat :=
  ⟨[[.middleware ⟨"/", 10⟩]], ⟨"*", .every, .process 1⟩⟩

theorem catchAllPosition_holds : ∀ host ∈ administered.hosts, host.Holds catchAllPosition := by
  intro host declared
  rw [List.mem_singleton.mp declared]
  apply Host.Holds.base
  exact .endpoint [.middleware ⟨"/", 10⟩] [] _

/-- A middleware for everything below the root takes in every path with a slash in front, but is
not in the chain of the endpoint that is declared behind it without a pathname. -/
theorem catch_all_unguarded :
    ∃ compilation, build {} Dispatch.backend administered = .ok compilation ∧
      (∀ host ∈ administered.hosts, host.Holds catchAllPosition) ∧
      (⟨"/", 10⟩ : Middleware Nat) ∈ catchAllPosition.scope ∧
      (Text.segments catchAllPosition.endpoint.pathname.toList).any Dispatch.isMarked = false ∧
      (∃ path, Middleware.Answered catchAllPosition.endpoint.pathname path) ∧
      (∀ path, Middleware.Answered catchAllPosition.endpoint.pathname path →
        (⟨"/", 10⟩ : Middleware Nat).appliesTo path = true) ∧
      (⟨"/", 10⟩ : Middleware Nat).appliesTo catchAllPosition.endpoint.pathname = false ∧
      (compilation.backend.getD []).map (fun registration =>
        (registration.pathname, registration.chain)) =
          [("*", [1]), ("/admin/tools/*", [10, 20, 2])] := by
  have succeeds : (build {} Dispatch.backend administered).isOk = true := by decide +kernel
  obtain ⟨compilation, compiled⟩ := (isOk_iff_exists _).mp succeeds
  refine ⟨compilation, compiled, catchAllPosition_holds, by decide, by decide, ?_, ?_, by decide,
    ?_⟩
  · refine ⟨"/secret", by decide, .below "/", by decide, ?_⟩
    change Text.startsWith "/secret" "/" = true
    decide
  · rintro path ⟨slash, _⟩
    rw [Text.startsWith_iff] at slash
    exact (Middleware.covers_slash (by decide) path.toList).mpr slash
  · rw [build_registrations compiled]
    decide +kernel

end Compilation

end VirtualHosts
