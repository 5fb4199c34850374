/-
The endpoints of a manifest, and what they are translated into.

Which verbs a list of names asks for and which target is set are told without the
translation.  An endpoint is then accepted exactly under conditions on its fields, and
they leave nothing about its translation open.
-/

import VirtualHosts.Manifest
import VirtualHosts.Proofs.Declaration.Endpoints
import VirtualHosts.Proofs.Sequence

namespace VirtualHosts

namespace Verb

theorem lower_name (verb : Verb) : Text.lower verb.name = verb.name := by
  cases verb <;> rfl

theorem ofName?_name (verb : Verb) : all.find? (·.name == verb.name) = some verb := by
  cases verb <;> rfl

theorem ofName?_eq_some_iff {text : String} {verb : Verb} :
    ofName? text = some verb ↔ Text.sameIgnoringCase text verb.name = true := by
  rw [ofName?, Text.sameIgnoringCase, lower_name, beq_iff_eq]
  constructor
  · intro found
    have agrees := List.find?_some found
    exact (eq_of_beq agrees).symm
  · intro same
    rw [same]
    exact ofName?_name verb

end Verb

theorem VerbSet.contains_foldl_union (sets : List VerbSet) (start : VerbSet) (verb : Verb) :
    (sets.foldl union start).contains verb = true ↔
      start.contains verb = true ∨ ∃ verbs ∈ sets, verbs.contains verb = true := by
  induction sets generalizing start with
  | nil => simp
  | cons verbs rest ih =>
      rw [List.foldl_cons, ih, union, Bool.or_eq_true, or_assoc]
      simp only [List.mem_cons, exists_eq_or_imp]

namespace Manifest.EndpointSpec

/-! ### Verbs -/

/-- Whether a name of a manifest stands for a verb, by itself or among all methods. -/
def Names (name : String) (verb : Verb) : Prop :=
  (Text.sameIgnoringCase name "all" = true ∧ verb ∈ Verb.methods) ∨
    Text.sameIgnoringCase name verb.name = true

instance (name : String) (verb : Verb) : Decidable (Names name verb) :=
  inferInstanceAs (Decidable (_ ∨ _))

theorem not_all_of_verb {name : String} {verb : Verb}
    (same : Text.sameIgnoringCase name verb.name = true) :
    Text.sameIgnoringCase name "all" ≠ true := by
  intro every
  rw [Text.sameIgnoringCase, beq_iff_eq] at same every
  have impossible : Text.lower verb.name = Text.lower "all" := same.symm.trans every
  cases verb <;> revert impossible <;> decide

theorem verbsNamed_eq_ok_iff {name : String} {verbs : VerbSet} :
    verbsNamed name = .ok verbs ↔
      (∃ verb, Names name verb) ∧ ∀ verb, verbs.contains verb = true ↔ Names name verb := by
  rw [verbsNamed]
  by_cases every : Text.sameIgnoringCase name "all" = true
  · have names (verb : Verb) : Names name verb ↔ VerbSet.every.contains verb = true := by
      have other : Text.sameIgnoringCase name verb.name ≠ true :=
        fun same => not_all_of_verb same every
      simp [Names, every, other, VerbSet.every]
    rw [if_pos every, Except.ok.injEq]
    simp only [names]
    constructor
    · rintro rfl
      exact ⟨⟨.get, by decide⟩, fun verb => Iff.rfl⟩
    · rintro ⟨-, same⟩
      exact VerbSet.ext fun verb => (Bool.eq_iff_iff.mpr (same verb)).symm
  · have names (verb : Verb) : Names name verb ↔ Verb.ofName? name = some verb := by
      simp [Names, every, Verb.ofName?_eq_some_iff]
    rw [if_neg every]
    simp only [names]
    cases found : Verb.ofName? name with
    | none => simp [DeclarationError.orUnknown, Except.map]
    | some known =>
        simp only [DeclarationError.orUnknown, Except.map, Except.ok.injEq, Option.some.injEq]
        constructor
        · rintro rfl
          refine ⟨⟨known, rfl⟩, fun verb => ?_⟩
          rw [VerbSet.single, beq_iff_eq, eq_comm]
        · rintro ⟨-, same⟩
          apply VerbSet.ext
          intro verb
          rw [Bool.eq_iff_iff, same, VerbSet.single, beq_iff_eq, eq_comm]

/-- Whether an endpoint of a manifest asks for a verb. -/
def Asks (spec : EndpointSpec) (verb : Verb) : Prop :=
  (spec.verbs = [] ∧ verb = .get) ∨ ∃ name ∈ spec.verbs, Names name verb

instance (spec : EndpointSpec) (verb : Verb) : Decidable (spec.Asks verb) :=
  inferInstanceAs (Decidable (_ ∨ _))

theorem contains_of_named {names : List String} {sets : List VerbSet}
    (named : List.Forall₂
      (fun name (verbs : VerbSet) => ∀ verb, verbs.contains verb = true ↔ Names name verb)
      names sets) (verb : Verb) :
    (∃ verbs ∈ sets, verbs.contains verb = true) ↔ ∃ name ∈ names, Names name verb := by
  induction named with
  | nil => simp
  | cons first _ ih =>
      simp only [List.mem_cons, exists_eq_or_imp, ih, first verb]

theorem verbSet_eq_ok_iff {spec : EndpointSpec} {verbs : VerbSet} :
    spec.verbSet = .ok verbs ↔
      (∀ name ∈ spec.verbs, ∃ verb, Names name verb) ∧
        ∀ verb, verbs.contains verb = true ↔ spec.Asks verb := by
  unfold verbSet
  by_cases unnamed : spec.verbs = []
  · have asks (verb : Verb) : spec.Asks verb ↔ (VerbSet.single .get).contains verb = true := by
      simp [Asks, unnamed, VerbSet.single]
    rw [if_pos (List.isEmpty_iff.mpr unnamed), unnamed, Except.ok.injEq]
    simp only [asks]
    constructor
    · rintro rfl
      exact ⟨nofun, fun verb => Iff.rfl⟩
    · rintro ⟨-, same⟩
      exact VerbSet.ext fun verb => (Bool.eq_iff_iff.mpr (same verb)).symm
  · have asks (verb : Verb) : spec.Asks verb ↔ ∃ name ∈ spec.verbs, Names name verb := by
      simp [Asks, unnamed]
    have gathered {sets : List VerbSet} (ran : spec.verbs.mapM verbsNamed = .ok sets) :
        (∀ name ∈ spec.verbs, ∃ verb, Names name verb) ∧
          ∀ verb, (sets.foldl VerbSet.union .empty).contains verb = true ↔ spec.Asks verb := by
      have each := mapM_eq_ok_iff.mp ran
      simp only [verbsNamed_eq_ok_iff] at each
      obtain ⟨known, named⟩ := (List.forall₂_and_left _ _).mp each
      refine ⟨known, fun verb => ?_⟩
      rw [VerbSet.contains_foldl_union, contains_of_named named, asks]
      simp [VerbSet.empty]
    rw [if_neg (mt List.isEmpty_iff.mp unnamed), map_eq_ok_iff]
    constructor
    · rintro ⟨sets, ran, rfl⟩
      exact gathered ran
    · rintro ⟨known, same⟩
      obtain ⟨sets, ran⟩ : ∃ sets, spec.verbs.mapM verbsNamed = .ok sets := by
        apply mapM_ok_of_forall
        intro name member
        refine ⟨⟨fun verb => decide (Names name verb)⟩, verbsNamed_eq_ok_iff.mpr ?_⟩
        exact ⟨known name member, fun verb => decide_eq_true_iff⟩
      refine ⟨sets, ran, VerbSet.ext fun verb => ?_⟩
      rw [Bool.eq_iff_iff, (gathered ran).2, same]

/-! ### Targets -/

/-- The target of an endpoint of a manifest, where one is set and no other. -/
inductive Sets : EndpointSpec → Target FixedHandler → Prop
  | file (path : Option String) (verbs : List String) (name : String) :
      Sets ⟨path, verbs, some name, none, none, none⟩ (.file name)
  | directory (path : Option String) (verbs : List String) (name : String) :
      Sets ⟨path, verbs, none, some name, none, none⟩ (.file name)
  | respond (path : Option String) (verbs : List String) (answer : FixedResponse) :
      Sets ⟨path, verbs, none, none, some answer, none⟩
        (.process (.respond answer.status.toNat answer.body answer.headers))
  | redirect (path : Option String) (verbs : List String) (redirect : FixedRedirect) :
      Sets ⟨path, verbs, none, none, none, some redirect⟩
        (.process (.redirect redirect.place redirect.code.toNat))

theorem targets_eq_one_iff (spec : EndpointSpec) :
    spec.targets = 1 ↔ ∃ target, spec.Sets target := by
  constructor
  · intro single
    -- Twelve of the sixteen cases do not set one field.
    rcases spec with ⟨path, verbs, _ | name, _ | directory, _ | answer, _ | redirect⟩ <;>
      simp [targets] at single
    · exact ⟨_, .redirect path verbs redirect⟩
    · exact ⟨_, .respond path verbs answer⟩
    · exact ⟨_, .directory path verbs directory⟩
    · exact ⟨_, .file path verbs name⟩
  · rintro ⟨target, sets⟩
    cases sets <;> rfl

/-- The verbs that an endpoint gets: the mark alone for a directory, and otherwise those that
are named. -/
def verbs? (spec : EndpointSpec) : Except DeclarationError VerbSet :=
  if spec.directory.isSome then .ok (.single .static) else spec.verbSet

theorem verbs?_eq_ok_iff {spec : EndpointSpec} {verbs : VerbSet} :
    spec.verbs? = .ok verbs ↔
      (spec.directory = none → ∀ name ∈ spec.verbs, ∃ verb, Names name verb) ∧
        (spec.directory.isSome → verbs = .single .static) ∧
        (spec.directory = none → ∀ verb, verbs.contains verb = true ↔ spec.Asks verb) := by
  unfold verbs?
  cases spec.directory with
  | some directory =>
      rw [Option.isSome_some, if_pos rfl, Except.ok.injEq]
      constructor
      · rintro rfl
        exact ⟨nofun, fun _ => rfl, nofun⟩
      · rintro ⟨-, alone, -⟩
        exact (alone rfl).symm
  | none =>
      rw [Option.isSome_none, if_neg Bool.false_ne_true, verbSet_eq_ok_iff]
      constructor
      · rintro ⟨named, asked⟩
        exact ⟨fun _ => named, nofun, fun _ => asked⟩
      · rintro ⟨named, -, asked⟩
        exact ⟨named rfl, asked rfl⟩

theorem Sets.of_process {spec : EndpointSpec} {handler : FixedHandler}
    (sets : spec.Sets (.process handler)) : spec.directory = none ∧ spec.file = none := by
  cases sets <;> exact ⟨rfl, rfl⟩

theorem Sets.of_file {spec : EndpointSpec} {name : String} (sets : spec.Sets (.file name))
    (unset : spec.directory = none) : spec.file.isSome := by
  cases sets with
  | file path verbs name => rfl
  | directory path verbs name => cases unset

theorem declare_of_sets (parent : String) {spec : EndpointSpec} {target : Target FixedHandler}
    (sets : spec.Sets target) :
    spec.declare parent = spec.verbs? >>= fun verbs =>
      Endpoint.declare (parent ++ spec.path.getD anyPath) verbs [target] := by
  cases sets <;> rfl

/-! ### Endpoints -/

/-- What makes an endpoint of a manifest acceptable under the pathname of its route. -/
structure Acceptable (parent : String) (spec : EndpointSpec) : Prop where
  target : ∃ target, spec.Sets target
  pathname : parent ++ spec.path.getD anyPath ≠ ""
  named : spec.directory = none → ∀ name ∈ spec.verbs, ∃ verb, Names name verb
  marked : spec.directory = none → spec.Asks .static →
    (∀ verb, spec.Asks verb → verb = .static) ∧ spec.file.isSome

/-- What an endpoint of a manifest describes under the pathname of its route. -/
structure Describes (parent : String) (spec : EndpointSpec) (endpoint : Endpoint FixedHandler) :
    Prop where
  pathname : endpoint.pathname = parent ++ spec.path.getD anyPath
  directory : spec.directory.isSome → endpoint.verbs = .single .static
  verbs : spec.directory = none →
    ∀ verb, endpoint.verbs.contains verb = true ↔ spec.Asks verb
  target : spec.Sets endpoint.target

theorem exists_sets_of_declare {parent : String} {spec : EndpointSpec}
    {endpoint : Endpoint FixedHandler} (declared : spec.declare parent = .ok endpoint) :
    ∃ target, spec.Sets target := by
  rw [← targets_eq_one_iff]
  by_contra several
  rw [declare] at declared
  simp only [if_pos several] at declared
  cases declared

variable {parent : String} {spec : EndpointSpec} {endpoint : Endpoint FixedHandler}

theorem Describes.inhabited (describes : spec.Describes parent endpoint)
    (named : spec.directory = none → ∀ name ∈ spec.verbs, ∃ verb, Names name verb) :
    ∃ verb, endpoint.verbs.contains verb = true := by
  cases served : spec.directory with
  | some directory =>
      rw [describes.directory (by rw [served]; rfl)]
      exact (VerbSet.sound_single .static).inhabited
  | none =>
      simp only [describes.verbs served]
      cases names : spec.verbs with
      | nil => exact ⟨.get, .inl ⟨names, rfl⟩⟩
      | cons name rest =>
          have member : name ∈ spec.verbs := by
            rw [names]
            exact List.mem_cons_self
          obtain ⟨verb, names⟩ := named served name member
          exact ⟨verb, .inr ⟨name, member, names⟩⟩

/-- The conditions on the mark of a directory are those that keep a callable from answering
for one. -/
theorem Describes.sound_iff (describes : spec.Describes parent endpoint)
    (named : spec.directory = none → ∀ name ∈ spec.verbs, ∃ verb, Names name verb) :
    endpoint.Sound ↔
      parent ++ spec.path.getD anyPath ≠ "" ∧
        (spec.directory = none → spec.Asks .static →
          (∀ verb, spec.Asks verb → verb = .static) ∧ spec.file.isSome) := by
  rw [← describes.pathname]
  constructor
  · intro sound
    refine ⟨sound.pathname, fun unset asked => ?_⟩
    have marked : endpoint.verbs = .single .static :=
      sound.verbs.apart ((describes.verbs unset .static).mpr asked)
    constructor
    · intro verb asks
      have held := (describes.verbs unset verb).mpr asks
      rw [marked] at held
      exact eq_of_beq held
    · have sets := describes.target
      cases answered : endpoint.target with
      | process handler => exact absurd marked (sound.callable ⟨handler, answered⟩)
      | file name =>
          rw [answered] at sets
          exact sets.of_file unset
  · rintro ⟨pathname, marked⟩
    refine ⟨pathname, ⟨describes.inhabited named, ?_⟩, ?_⟩
    · intro held
      cases served : spec.directory with
      | some directory => exact describes.directory (by rw [served]; rfl)
      | none =>
          have verbs := describes.verbs served
          obtain ⟨alone, -⟩ := marked served ((verbs .static).mp held)
          apply VerbSet.ext
          intro verb
          rw [Bool.eq_iff_iff, verbs verb, VerbSet.single, beq_iff_eq]
          constructor
          · exact alone verb
          · rintro rfl
            exact (verbs .static).mp held
    · rintro ⟨handler, answered⟩ only
      have sets := describes.target
      rw [answered] at sets
      obtain ⟨unset, noFile⟩ := sets.of_process
      have held : endpoint.verbs.contains .static = true := by
        rw [only]
        rfl
      obtain ⟨-, file⟩ := marked unset ((describes.verbs unset .static).mp held)
      rw [noFile] at file
      contradiction

/-- An endpoint of a manifest is translated exactly if it is acceptable, and then into the
endpoint that it describes. -/
theorem declare_eq_ok_iff :
    spec.declare parent = .ok endpoint ↔
      spec.Acceptable parent ∧ spec.Describes parent endpoint := by
  constructor
  · intro declared
    obtain ⟨target, sets⟩ := exists_sets_of_declare declared
    rw [declare_of_sets parent sets, bind_eq_ok_iff] at declared
    obtain ⟨verbs, read, accepted⟩ := declared
    obtain ⟨named, directory, asked⟩ := verbs?_eq_ok_iff.mp read
    obtain ⟨sound, pathname, rfl, same⟩ := Endpoint.declare_eq_ok_iff.mp accepted
    cases same
    have describes : spec.Describes parent endpoint := ⟨pathname, directory, asked, sets⟩
    obtain ⟨proper, marked⟩ := (describes.sound_iff named).mp sound
    exact ⟨⟨⟨_, sets⟩, proper, named, marked⟩, describes⟩
  · rintro ⟨acceptable, describes⟩
    have sound : endpoint.Sound :=
      (describes.sound_iff acceptable.named).mpr ⟨acceptable.pathname, acceptable.marked⟩
    rw [declare_of_sets parent describes.target, bind_eq_ok_iff]
    refine ⟨endpoint.verbs, ?_, ?_⟩
    · exact verbs?_eq_ok_iff.mpr ⟨acceptable.named, describes.directory, describes.verbs⟩
    · exact Endpoint.declare_eq_ok_iff.mpr ⟨sound, describes.pathname, rfl, rfl⟩

theorem Acceptable.declares (acceptable : spec.Acceptable parent) :
    ∃ endpoint, spec.declare parent = .ok endpoint := by
  obtain ⟨target, sets⟩ := acceptable.target
  let verbs : VerbSet :=
    if spec.directory.isSome then .single .static else ⟨fun verb => decide (spec.Asks verb)⟩
  refine ⟨⟨parent ++ spec.path.getD anyPath, verbs, target⟩, declare_eq_ok_iff.mpr ?_⟩
  refine ⟨acceptable, rfl, fun served => if_pos served, fun unset verb => ?_, sets⟩
  have listed : verbs = ⟨fun verb => decide (spec.Asks verb)⟩ := by
    simp only [verbs, unset, Option.isSome_none, Bool.false_eq_true, if_false]
  rw [listed]
  exact decide_eq_true_iff

end Manifest.EndpointSpec

end VirtualHosts
