/-
What the declaration of an endpoint accepts, and what holds of every endpoint that one yields.

The checks of a declaration are told as conditions on the verbs, the pathname and the
target; how an endpoint is served follows from its target and its verbs alone.
-/

import VirtualHosts.Declaration

namespace VirtualHosts

variable {α : Type}

namespace VerbSet

theorem toList_single_static : (single .static).toList = [Verb.static] := rfl

theorem isEmpty_eq_false_iff (verbs : VerbSet) :
    verbs.isEmpty = false ↔ ∃ verb, verbs.contains verb = true := by
  rw [isEmpty, List.isEmpty_eq_false_iff_exists_mem]
  simp only [mem_toList]

theorem isStatic_iff (verbs : VerbSet) :
    verbs.isStatic = true ↔ verbs = .single .static := by
  rw [isStatic, beq_iff_eq, ← toList_single_static]
  constructor
  · exact toList_injective
  · intro alone
    rw [alone]

/-- The mark of a directory stands beside nothing exactly when it is missing or all there is. -/
theorem isMixed_eq_false_iff (verbs : VerbSet) :
    verbs.isMixed = false ↔
      (verbs.contains .static = true → verbs = .single .static) := by
  rw [isMixed, Bool.and_eq_false_imp, decide_eq_false_iff_not]
  constructor
  · intro few marked
    have member : Verb.static ∈ verbs.toList := mem_toList.mpr marked
    have bound : verbs.toList.length ≤ 1 := Nat.le_of_not_lt (few marked)
    apply toList_injective
    cases listed : verbs.toList with
    | nil =>
        rw [listed] at member
        contradiction
    | cons verb rest =>
        rw [listed, List.length_cons] at bound
        have none : rest = [] := List.length_eq_zero_iff.mp (by omega)
        rw [listed, none, List.mem_singleton] at member
        rw [none, ← member, toList_single_static]
  · intro alone marked
    rw [alone marked]
    decide

/-- The verbs that an endpoint can have: some, and the mark of a directory only by itself. -/
structure Sound (verbs : VerbSet) : Prop where
  inhabited : ∃ verb, verbs.contains verb = true
  apart : verbs.contains .static = true → verbs = .single .static

theorem sound_iff (verbs : VerbSet) :
    verbs.Sound ↔ verbs.isEmpty = false ∧ verbs.isMixed = false := by
  rw [isEmpty_eq_false_iff, isMixed_eq_false_iff]
  exact ⟨fun sound => ⟨sound.inhabited, sound.apart⟩, fun both => ⟨both.1, both.2⟩⟩

theorem sound_single (verb : Verb) : (single verb).Sound := by
  constructor
  · exact ⟨verb, beq_self_eq_true verb⟩
  · intro marked
    rw [eq_of_beq marked]

end VerbSet

namespace Endpoint

/-- What a declaration makes sure of: a callable never answers for a directory. -/
structure Sound (endpoint : Endpoint α) : Prop where
  pathname : endpoint.pathname ≠ ""
  verbs : endpoint.verbs.Sound
  callable : (∃ handler, endpoint.target = .process handler) →
    endpoint.verbs ≠ .single .static

/-- How an endpoint is served, told by what answers it and by its verbs. -/
structure Classified (endpoint : Endpoint α) : Prop where
  process : endpoint.mode = .process ↔ ∃ handler, endpoint.target = .process handler
  static : endpoint.mode = .static ↔
    (∃ path, endpoint.target = .file path) ∧ endpoint.verbs = .single .static
  file : endpoint.mode = .file ↔
    (∃ path, endpoint.target = .file path) ∧ endpoint.verbs ≠ .single .static

theorem classified (endpoint : Endpoint α) : endpoint.Classified := by
  cases endpoint with
  | mk pathname verbs target =>
      cases target with
      | process handler => constructor <;> simp [mode]
      | file path =>
          by_cases marked : verbs.isStatic = true
          · have alone := (VerbSet.isStatic_iff verbs).mp marked
            subst alone
            constructor <;> simp [mode, marked]
          · have mixed := mt (VerbSet.isStatic_iff verbs).mpr marked
            constructor <;> simp [mode, marked, mixed]

/-- A declaration succeeds on one target, and then nothing about the endpoint is open. -/
theorem declare_eq_ok_iff {pathname : String} {verbs : VerbSet} {targets : List (Target α)}
    {endpoint : Endpoint α} :
    declare pathname verbs targets = .ok endpoint ↔
      endpoint.Sound ∧ endpoint.pathname = pathname ∧ endpoint.verbs = verbs ∧
        targets = [endpoint.target] := by
  constructor
  · intro declared
    unfold declare at declared
    split at declared
    · contradiction
    rename_i named
    split at declared
    · contradiction
    rename_i inhabited
    split at declared
    · contradiction
    rename_i apart
    have verbsSound : verbs.Sound :=
      (VerbSet.sound_iff verbs).mpr
        ⟨Bool.eq_false_iff.mpr inhabited, Bool.eq_false_iff.mpr apart⟩
    split at declared
    · cases declared
      exact ⟨⟨mt String.isEmpty_iff.mpr named, verbsSound, nofun⟩, rfl, rfl, rfl⟩
    · split at declared
      · contradiction
      rename_i marked
      cases declared
      exact ⟨⟨mt String.isEmpty_iff.mpr named, verbsSound, fun _ => mt (VerbSet.isStatic_iff verbs).mpr marked⟩,
        rfl, rfl, rfl⟩
    · contradiction
  · rintro ⟨sound, rfl, rfl, rfl⟩
    obtain ⟨inhabited, apart⟩ := (VerbSet.sound_iff endpoint.verbs).mp sound.verbs
    unfold declare
    rw [if_neg (mt String.isEmpty_iff.mp sound.pathname), inhabited, apart]
    cases answered : endpoint.target with
    | file path =>
        cases endpoint
        cases answered
        rfl
    | process handler =>
        have unmarked : endpoint.verbs.isStatic ≠ true :=
          mt (VerbSet.isStatic_iff endpoint.verbs).mp (sound.callable ⟨handler, answered⟩)
        cases endpoint
        cases answered
        exact if_neg unmarked

end Endpoint

/-! ### The name of a served file -/

namespace FilePath

/-- A part of a path that says nothing. -/
def Silent (part : List Char) : Prop :=
  part = [] ∨ part = ['.']

theorem silent_iff {part : List Char} :
    Silent part ↔ (part != [] && part != ['.']) = false := by
  rw [Bool.and_eq_false_iff, bne_eq_false_iff_eq, bne_eq_false_iff_eq]
  rfl

theorem getLast?_parts_eq_some_iff {path : String} {last : List Char} :
    (parts path).getLast? = some last ↔
      ¬ Silent last ∧
        ∃ front back, Text.segments path.toList = front ++ last :: back ∧
          ∀ part ∈ back, Silent part := by
  rw [parts, List.getLast?_filter, List.find?_eq_some_iff_append, silent_iff, Bool.not_eq_false]
  apply and_congr_right'
  constructor
  · rintro ⟨back, front, cut, silent⟩
    refine ⟨front.reverse, back.reverse, ?_, ?_⟩
    · rw [← List.reverse_reverse (Text.segments _), cut]
      simp
    · intro part member
      have skipped := silent part (List.mem_reverse.mp member)
      rw [Bool.not_eq_true'] at skipped
      exact silent_iff.mpr skipped
  · rintro ⟨front, back, cut, silent⟩
    refine ⟨back.reverse, front.reverse, ?_, ?_⟩
    · rw [cut]
      simp
    · intro part member
      rw [Bool.not_eq_true']
      exact silent_iff.mp (silent part (List.mem_reverse.mp member))

/-- The last part of the path that says anything is a name, and this one. -/
def EndsIn (path : String) (name : List Char) : Prop :=
  ¬ Silent name ∧
    (∃ front back, Text.segments path.toList = front ++ name :: back ∧
      ∀ part ∈ back, Silent part) ∧
    name ≠ ['.', '.']

theorem fileName?_eq_some_iff {path : String} {name : List Char} :
    fileName? path = some name ↔ EndsIn path name := by
  rw [fileName?, Option.filter_eq_some_iff, getLast?_parts_eq_some_iff, bne_iff_ne, and_assoc]
  rfl

end FilePath

/-- The name that a file is served under is the last one in its path.  A path that ends in none
stands for itself, without the slashes at its ends. -/
theorem Endpoint.fileName?_of_file {endpoint : Endpoint α} {path : String}
    (served : endpoint.target = .file path) :
    (∃ name, FilePath.EndsIn path name ∧ endpoint.fileName? = some (.ofList name)) ∨
      (∀ name, ¬ FilePath.EndsIn path name) ∧
        endpoint.fileName? = some (.ofList (Text.stripBoth '/' path.toList)) := by
  have asked : endpoint.fileName? =
      some (.ofList ((FilePath.fileName? path).getD (Text.stripBoth '/' path.toList))) := by
    rw [fileName?, filePath?, served]
    rfl
  cases named : FilePath.fileName? path with
  | some name =>
      rw [named] at asked
      exact .inl ⟨name, FilePath.fileName?_eq_some_iff.mp named, asked⟩
  | none =>
      rw [named] at asked
      refine .inr ⟨fun name ends => ?_, asked⟩
      rw [FilePath.fileName?_eq_some_iff.mpr ends] at named
      cases named

example : (⟨"/guide", .every, .file "public//guide.html/."⟩ : Endpoint Nat).fileName? =
    some "guide.html" := by decide +kernel

/-! ### The arguments of a declaration -/

namespace Given

/-- The pathname that a declaration is given: the text at the front, or any path. -/
def pathname : Given α → String
  | .plain (.text text :: _) => text
  | .plain _ => anyPath
  | .sorted arguments => arguments.pathname

def targets : Given α → List (Target α)
  | .plain (.text _ :: rest) => rest.map Arguments.target
  | .plain arguments => arguments.map Arguments.target
  | .sorted arguments => arguments.targets

theorem arguments_eq_ok {given : Given α} {arguments : Arguments α}
    (read : given.arguments = .ok arguments) :
    arguments = ⟨given.pathname, given.targets⟩ := by
  cases given with
  | sorted sorted =>
      cases read
      rfl
  | plain plain =>
      cases plain with
      | nil => cases read
      | cons first rest =>
          cases first <;> cases read <;> rfl

end Given

theorem Endpoint.under_eq_ok {parent : String} {verbs : VerbSet} {given : Given α}
    {endpoint : Endpoint α} (declared : Endpoint.under parent verbs given = .ok endpoint) :
    endpoint.Sound ∧ endpoint.pathname = parent ++ given.pathname ∧ endpoint.verbs = verbs ∧
      given.targets = [endpoint.target] := by
  rw [Endpoint.under] at declared
  cases read : given.arguments with
  | error failure =>
      rw [read] at declared
      cases declared
  | ok arguments =>
      rw [read, Given.arguments_eq_ok read] at declared
      exact Endpoint.declare_eq_ok_iff.mp declared

theorem Middleware.under_eq_ok {parent : String} {given : Given α} {middleware : Middleware α}
    (declared : Middleware.under parent given = .ok middleware) :
    middleware.pathname =
        (if given.pathname = anyPath then anyPath else parent ++ given.pathname) ∧
      given.targets = [.process middleware.handler] := by
  rw [Middleware.under] at declared
  cases read : given.arguments with
  | error failure =>
      rw [read] at declared
      cases declared
  | ok arguments =>
      rw [read, Given.arguments_eq_ok read] at declared
      simp only [bind, Except.bind] at declared
      split at declared
      · rename_i alone
        cases declared
        exact ⟨rfl, alone⟩
      · contradiction

end VirtualHosts
