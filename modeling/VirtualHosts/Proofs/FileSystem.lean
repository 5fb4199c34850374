/-
What the operations of a disk do, in terms of the place a path leads to.

A path that leads to a file, or to where a file can be made, does so by its names
alone: the directories of the disk decide whether it gets there, not where.  Putting
a file below a directory makes no new directory, so a path that got there once gets
there again, whatever files have been put on the disk since.
-/

import Mathlib.Data.List.Basic
import VirtualHosts.FileSystem
import VirtualHosts.Proofs.Sequence

namespace VirtualHosts

/-- Where a name leads from a place if nothing is in the way. -/
def Place.step (place : Place) (name : String) : Place :=
  if name = "" ∨ name = "." then place
  else if name = ".." then place.dropLast
  else place ++ [name]

/-- A name that leads one place further: not an empty one, and no dots. -/
def Place.IsProper (name : String) : Prop :=
  name ≠ "" ∧ name ≠ "." ∧ name ≠ ".."

theorem Place.step_of_isProper {name : String} (proper : IsProper name) (place : Place) :
    place.step name = place ++ [name] := by
  unfold step
  rw [if_neg (not_or.mpr ⟨proper.1, proper.2.1⟩), if_neg proper.2.2]

theorem Place.step_of_not_isProper {name : String} (improper : ¬IsProper name)
    (place : Place) : place.step name = place ∧ (name = "" ∨ name = ".") ∨
      place.step name = place.dropLast ∧ name = ".." ∧ ¬(name = "" ∨ name = ".") := by
  unfold step
  by_cases here : name = "" ∨ name = "."
  · exact .inl ⟨if_pos here, here⟩
  · have up : name = ".." := by
      by_contra other
      exact improper ⟨fun same => here (.inl same), fun same => here (.inr same), other⟩
    rw [if_neg here, if_pos up]
    exact .inr ⟨rfl, up, here⟩

/-- The names on a path.  What is looked up last is the last of them. -/
def Place.names (path : String) : List String :=
  (Text.segments (Text.stripEnd '/' path.toList)).map String.ofList

/-- Where the first name on a path is looked up. -/
def Place.start (path : String) : Place :=
  if path.toList.head? = some '/' then [] else workingDirectory

/-- The place that a path names. -/
def Place.ofPath (path : String) : Place :=
  (Place.names path).foldl Place.step (Place.start path)

namespace Disk

variable {disk : Disk} {place other : Place} {path : String}

/-! ### Files by their places -/

def places (disk : Disk) : List Place :=
  disk.files.map (·.1)

def refill (place : Place) (content : Content) (file : Place × Content) : Place × Content :=
  if file.1 = place then (place, content) else file

@[simp] theorem refill_fst (place : Place) (content : Content) (file : Place × Content) :
    (refill place content file).1 = file.1 := by
  unfold refill
  split
  · rename_i here
    exact here.symm
  · rfl

theorem refill_self {content : Content} {file : Place × Content} (here : file.1 = place) :
    refill place content file = (place, content) :=
  if_pos here

theorem refill_other {content : Content} {file : Place × Content} (elsewhere : file.1 ≠ place) :
    refill place content file = file :=
  if_neg elsewhere

theorem refill_comm {first last : Content} (elsewhere : place ≠ other) :
    refill place first ∘ refill other last = refill other last ∘ refill place first := by
  funext file
  simp only [Function.comp_apply, refill]
  by_cases here : file.1 = place
  · have there : file.1 ≠ other := by
      rw [here]
      exact elsewhere
    simp [here, elsewhere]
  · by_cases there : file.1 = other
    · simp [there, elsewhere.symm]
    · simp [there, here]

theorem map_refill_of_notMem {files : List (Place × Content)}
    (absent : place ∉ files.map (·.1)) (content : Content) :
    files.map (refill place content) = files := by
  rw [List.map_congr_left (g := id), List.map_id]
  intro file held
  apply refill_other
  intro here
  exact absent (List.mem_map.mpr ⟨file, held, here⟩)

theorem lookup_refilled {files : List (Place × Content)} (held : place ∈ files.map (·.1))
    (content : Content) : (files.map (refill place content)).lookup place = some content := by
  induction files with
  | nil => cases held
  | cons first rest ih =>
      rw [List.map_cons, List.lookup_cons]
      by_cases here : first.1 = place
      · simp [refill_self here]
      · rw [refill_other here, beq_false_of_ne (Ne.symm here)]
        rcases List.mem_cons.mp held with same | further
        · exact absurd same.symm here
        · exact ih further

theorem lookup_map_refill_other (files : List (Place × Content)) (content : Content)
    (elsewhere : other ≠ place) :
    (files.map (refill place content)).lookup other = files.lookup other := by
  induction files with
  | nil => rfl
  | cons first rest ih =>
      rw [List.map_cons, List.lookup_cons, List.lookup_cons, ih]
      by_cases here : first.1 = place
      · rw [refill_self here, here, beq_false_of_ne elsewhere]
      · rw [refill_other here]

theorem lookup_eq_none_of_notMem {files : List (Place × Content)}
    (absent : place ∉ files.map (·.1)) : files.lookup place = none := by
  apply List.lookup_eq_none_iff.mpr
  intro file held
  apply bne_iff_ne.mpr
  intro same
  exact absurd (List.mem_map.mpr ⟨file, held, same.symm⟩) absent

theorem put_eq (disk : Disk) (place : Place) (content : Content) :
    disk.put place content = { disk with
      files := disk.files.map (refill place content) ++
        if place ∈ disk.places then [] else [(place, content)] } := by
  have known : disk.files.any (·.1 == place) = true ↔ place ∈ disk.places := by
    simp only [places, List.any_eq_true, beq_iff_eq, List.mem_map]
  unfold put
  by_cases held : place ∈ disk.places
  · rw [if_pos (known.mpr held), if_pos held, List.append_nil]
    rfl
  · rw [if_neg (held ∘ known.mp), if_neg held, map_refill_of_notMem held]

theorem places_put (disk : Disk) (place : Place) (content : Content) :
    (disk.put place content).places =
      disk.places ++ if place ∈ disk.places then [] else [place] := by
  rw [put_eq]
  have kept : (·.1) ∘ refill place content = (·.1) := funext (refill_fst place content)
  unfold places
  rw [List.map_append, List.map_map, kept]
  split <;> rfl

/-- A file that is put is found, and nothing else changes. -/
theorem content?_put (disk : Disk) (place other : Place) (content : Content) :
    (disk.put place content).content? other =
      if other = place then some content else disk.content? other := by
  rw [put_eq]
  unfold content?
  rw [List.lookup_append]
  by_cases same : other = place
  · rw [if_pos same, same]
    by_cases held : place ∈ disk.places
    · rw [lookup_refilled held, Option.some_or]
    · rw [map_refill_of_notMem held, lookup_eq_none_of_notMem held, if_neg held]
      simp
  · rw [if_neg same, lookup_map_refill_other _ _ same]
    split <;> simp [List.lookup_cons, beq_false_of_ne same]

/-- The last file put at a place is all that is left of what was put there. -/
theorem put_put (disk : Disk) (place : Place) (first last : Content) :
    (disk.put place first).put place last = disk.put place last := by
  have again : refill place last ∘ refill place first = refill place last := by
    funext file
    by_cases here : file.1 = place
    · simp [refill_self here, refill_self]
    · simp [refill_other here]
  rw [put_eq (disk.put place first), places_put, put_eq disk, put_eq disk]
  by_cases held : place ∈ disk.places
  · simp [held, again]
  · simp [held, again, refill_self]

/-- A file that holds what is put again is not disturbed by one put elsewhere. -/
theorem put_put_of_settled {content : Content} (settled : disk.put place content = disk)
    (elsewhere : other ≠ place) (added : Content) :
    (disk.put other added).put place content = disk.put other added := by
  have held : place ∈ disk.places := by
    rw [← settled, places_put]
    by_cases held : place ∈ disk.places <;> simp [held]
  have kept : disk.files.map (refill place content) = disk.files := by
    have same := congrArg Disk.files settled
    rw [put_eq] at same
    simpa [held] using same
  have swapped : (disk.files.map (refill other added)).map (refill place content) =
      disk.files.map (refill other added) := by
    rw [List.map_map, refill_comm elsewhere.symm, ← List.map_map, kept]
  have apart : refill place content (other, added) = (other, added) := refill_other elsewhere
  rw [put_eq (disk.put other added), places_put, put_eq disk]
  by_cases known : other ∈ disk.places
  · simp [held, known, swapped]
  · simp [held, known, swapped, apart]

/-! ### Directories -/

theorem isDirectory_iff : disk.isDirectory place = true ↔
    place <+: workingDirectory ∨ (∃ name ∈ rootDirectories, [name] = place) ∨
      (∃ directory ∈ disk.directories, place <+: directory) ∨
      ∃ file ∈ disk.places, place <+: file ∧ place ≠ file := by
  unfold isDirectory places
  simp only [Bool.or_eq_true, List.any_eq_true, List.isPrefixOf_iff_prefix, beq_iff_eq,
    Bool.and_eq_true, bne_iff_ne, List.mem_map, exists_exists_and_eq_and, or_assoc]

theorem isDirectory_of_prefix (directory : disk.isDirectory place = true)
    (above : other <+: place) : disk.isDirectory other = true := by
  rw [isDirectory_iff] at directory ⊢
  rcases directory with working | ⟨name, known, rfl⟩ | ⟨made, known, below⟩ |
    ⟨file, known, below, apart⟩
  · exact .inl (above.trans working)
  · rcases List.prefix_cons_iff.mp above with rfl | ⟨rest, rfl, rest_nil⟩
    · exact .inl List.nil_prefix
    · rw [List.prefix_nil.mp rest_nil]
      exact .inr (.inl ⟨name, known, rfl⟩)
  · exact .inr (.inr (.inl ⟨made, known, above.trans below⟩))
  · refine .inr (.inr (.inr ⟨file, known, above.trans below, ?_⟩))
    rintro rfl
    exact apart (below.eq_of_length (Nat.le_antisymm below.length_le above.length_le))

/-- A place where a file is or can be made: below a directory, and none itself. -/
structure HasRoom (disk : Disk) (place : Place) : Prop where
  parent : disk.isDirectory place.dropLast = true
  plain : disk.isDirectory place = false

theorem prefix_dropLast_of_ne (above : other <+: place) (apart : other ≠ place) :
    other <+: place.dropLast := by
  cases place using List.reverseRecOn with
  | nil => exact absurd (List.prefix_nil.mp above) apart
  | append_singleton front last =>
      rw [List.dropLast_concat]
      exact (List.prefix_concat_iff.mp above).resolve_left apart

/-- Files make no directories where they have room. -/
theorem HasRoom.isDirectory_put (room : disk.HasRoom place) (content : Content)
    (other : Place) : (disk.put place content).isDirectory other = disk.isDirectory other := by
  rw [Bool.eq_iff_iff]
  constructor
  · intro directory
    rw [isDirectory_iff, places_put] at directory
    rcases directory with working | top | made | ⟨file, known, above, apart⟩
    · exact isDirectory_iff.mpr (.inl working)
    · exact isDirectory_iff.mpr (.inr (.inl top))
    · apply isDirectory_iff.mpr
      rw [put_eq] at made
      exact .inr (.inr (.inl made))
    · by_cases old : file ∈ disk.places
      · exact isDirectory_iff.mpr (.inr (.inr (.inr ⟨file, old, above, apart⟩)))
      · have here : file = place := by
          by_cases held : place ∈ disk.places
          · rw [if_pos held, List.append_nil] at known
            exact absurd known old
          · rw [if_neg held] at known
            simpa [old] using known
        subst here
        exact isDirectory_of_prefix room.parent (prefix_dropLast_of_ne above apart)
  · intro directory
    rw [isDirectory_iff] at directory ⊢
    rw [places_put]
    rcases directory with working | top | made | ⟨file, known, above, apart⟩
    · exact .inl working
    · exact .inr (.inl top)
    · rw [put_eq]
      exact .inr (.inr (.inl made))
    · exact .inr (.inr (.inr ⟨file, List.mem_append_left _ known, above, apart⟩))

/-! ### Paths -/

/-- A name is entered where it leads, which has to be a directory if it is one place further. -/
theorem enter_eq_ok_iff {directory : Place} {name : String} :
    disk.enter directory name = .ok place ↔ place = directory.step name ∧
      (Place.IsProper name → ¬255 < name.utf8ByteSize ∧
        disk.isDirectory (directory ++ [name]) = true) := by
  unfold enter
  by_cases proper : Place.IsProper name
  · rw [if_neg (not_or.mpr ⟨proper.1, proper.2.1⟩), if_neg proper.2.2,
      Place.step_of_isProper proper]
    by_cases long : 255 < name.utf8ByteSize
    · simp [proper, long]
    · by_cases known : disk.isDirectory (directory ++ [name]) = true
      · simp [long, known, eq_comm]
      · rw [if_neg long, if_neg known]
        split <;> simp [proper, known]
  · have unchecked (led : Place) (checked : Prop) :
        Except.ok led = (Except.ok place : Except FileError Place) ↔
          place = led ∧ (Place.IsProper name → checked) := by
      rw [Except.ok.injEq, and_iff_left fun other => absurd other proper]
      exact eq_comm
    rcases Place.step_of_not_isProper proper directory with ⟨led, here⟩ | ⟨led, up, other⟩
    · rw [if_pos here, led]
      exact unchecked _ _
    · rw [if_neg other, if_pos up, led]
      exact unchecked _ _

theorem isDirectory_of_enter {directory : Place} {name : String}
    (entered : disk.enter directory name = .ok place)
    (start : disk.isDirectory directory = true) : disk.isDirectory place = true := by
  rcases enter_eq_ok_iff.mp entered with ⟨rfl, checked⟩
  by_cases proper : Place.IsProper name
  · rw [Place.step_of_isProper proper]
    exact (checked proper).2
  · rcases Place.step_of_not_isProper proper directory with ⟨led, _⟩ | ⟨led, _, _⟩
    · rw [led]
      exact start
    · rw [led]
      exact isDirectory_of_prefix start (List.dropLast_prefix _)

theorem enter_of_isDirectory {after : Disk} {directory : Place} {name : String}
    (kept : ∀ place, disk.isDirectory place = true → after.isDirectory place = true)
    (entered : disk.enter directory name = .ok place) :
    after.enter directory name = .ok place := by
  rw [enter_eq_ok_iff] at entered ⊢
  refine ⟨entered.1, fun proper => ?_⟩
  exact ⟨(entered.2 proper).1, kept _ (entered.2 proper).2⟩

/-- The directory in which the last name of a path is looked up. -/
def reach (disk : Disk) (path : String) : Except FileError Place :=
  (Place.names path).dropLast.foldlM disk.enter (Place.start path)

theorem isDirectory_start (disk : Disk) (path : String) :
    disk.isDirectory (Place.start path) = true := by
  apply isDirectory_iff.mpr
  unfold Place.start
  split
  · exact .inl List.nil_prefix
  · exact .inl List.prefix_rfl

theorem reach_ok {directory : Place} (reached : disk.reach path = .ok directory) :
    directory = (Place.names path).dropLast.foldl Place.step (Place.start path) ∧
      disk.isDirectory directory = true := by
  refine foldlM_ok_induction (fun seen directory =>
    directory = seen.foldl Place.step (Place.start path) ∧
      disk.isDirectory directory = true) ?_ ?_ reached
  · exact ⟨rfl, isDirectory_start disk path⟩
  · intro seen name before after holds entered
    rw [List.foldl_append, ← holds.1]
    exact ⟨(enter_eq_ok_iff.mp entered).1, isDirectory_of_enter entered holds.2⟩

theorem reach_of_isDirectory {after : Disk} {directory : Place}
    (kept : ∀ place, disk.isDirectory place = true → after.isDirectory place = true)
    (reached : disk.reach path = .ok directory) : after.reach path = .ok directory := by
  refine foldlM_ok_induction (fun seen directory =>
    seen.foldlM after.enter (Place.start path) = .ok directory) rfl ?_ reached
  intro seen name before next ran entered
  rw [foldlM_concat_of_ok ran]
  exact enter_of_isDirectory kept entered

/-- What no path may have: a null character, no character at all, or too many. -/
def pathError? (path : String) : Option FileError :=
  if path.toList.contains '\x00' then some .nulInPath
  else if path.toList.isEmpty then some .notFound
  else if 4096 ≤ path.utf8ByteSize then some .nameTooLong
  else none

def endsInSlash (path : String) : Bool :=
  (Text.stripEnd '/' path.toList).length < path.toList.length

theorem follow_eq (disk : Disk) (making : Bool) (path : String) :
    disk.follow making path =
      match pathError? path with
      | some error => .error error
      | none => (disk.reach path).bind fun directory =>
          disk.arrive making (endsInSlash path) directory
            ((Place.names path).getLast?.getD "") := by
  unfold follow pathError?
  dsimp only
  cases path.toList.contains '\x00' with
  | true => rfl
  | false =>
      cases path.toList.isEmpty with
      | true => rfl
      | false =>
          by_cases long : 4096 ≤ path.utf8ByteSize
          · simp only [long]
            rfl
          · simp only [long]
            rfl

/-- What is at a place that is no directory. -/
def found (disk : Disk) (place : Place) : Target :=
  match disk.content? place with
  | some content => .file place content
  | none => .free place

/-- The path leads to a place that is no directory, where a file is or can be made. -/
inductive Reaches (disk : Disk) (path : String) : Place → Prop
  | named {directory : Place} {name : String} (lawful : pathError? path = none)
      (bare : endsInSlash path = false) (reached : disk.reach path = .ok directory)
      (last : (Place.names path).getLast? = some name)
      (proper : Place.IsProper name)
      (short : ¬255 < name.utf8ByteSize)
      (plain : disk.isDirectory (directory ++ [name]) = false) :
      Reaches disk path (directory ++ [name])

namespace Reaches

theorem room (reaches : disk.Reaches path place) : disk.HasRoom place := by
  cases reaches with
  | named _ _ reached _ _ _ plain =>
      refine ⟨?_, plain⟩
      rw [List.dropLast_concat]
      exact (reach_ok reached).2

theorem place_eq (reaches : disk.Reaches path place) : place = Place.ofPath path := by
  cases reaches with
  | @named directory name _ _ reached last proper _ _ =>
      have front : (Place.names path).dropLast ++ [name] = Place.names path :=
        List.dropLast_append_getLast? name (Option.mem_def.mpr last)
      unfold Place.ofPath
      rw [← front, List.foldl_append, ← (reach_ok reached).1]
      exact (Place.step_of_isProper proper directory).symm

theorem follow_eq (reaches : disk.Reaches path place) (making : Bool) :
    disk.follow making path = .ok (disk.found place) := by
  cases reaches with
  | @named directory name lawful bare reached last proper short plain =>
      rw [Disk.follow_eq, lawful]
      simp only [reached, Except.bind, last, Option.getD_some, bare, arrive]
      rw [if_neg (by simp [proper.1, proper.2.1, proper.2.2]), if_neg short,
        if_neg (by simp [plain])]
      unfold found
      cases disk.content? (directory ++ [name]) <;> rfl

theorem put (reaches : disk.Reaches path place) (room : disk.HasRoom other)
    (content : Content) : (disk.put other content).Reaches path place := by
  cases reaches with
  | named lawful bare reached last proper short plain =>
      apply named lawful bare _ last proper short
      · rw [room.isDirectory_put]
        exact plain
      · apply reach_of_isDirectory _ reached
        intro place directory
        rw [room.isDirectory_put]
        exact directory

end Reaches

theorem arrive_true_ok {slash : Bool} {directory : Place} {name : String} {target : Target}
    (arrived : disk.arrive true slash directory name = .ok target) :
    target = .directory ∨
      slash = false ∧ Place.IsProper name ∧ ¬255 < name.utf8ByteSize ∧
        disk.isDirectory (directory ++ [name]) = false ∧
        target = disk.found (directory ++ [name]) := by
  unfold arrive at arrived
  dsimp only at arrived
  split at arrived
  · cases arrived
    exact .inl rfl
  · rename_i ordinary
    rw [not_or, not_or, not_or] at ordinary
    have bare : slash = false := by
      cases slash with
      | false => rfl
      | true => exact absurd ⟨rfl, rfl⟩ ordinary.2.2.2
    split at arrived
    · cases arrived
    · rename_i short
      cases plain : disk.isDirectory (directory ++ [name]) with
      | true =>
          rw [plain] at arrived
          cases arrived
          exact .inl rfl
      | false =>
          refine .inr ⟨bare, ⟨ordinary.1, ordinary.2.1, ordinary.2.2.1⟩, short, rfl, ?_⟩
          rw [plain, bare] at arrived
          unfold found
          cases held : disk.content? (directory ++ [name]) with
          | none =>
              rw [held] at arrived
              cases arrived
              rfl
          | some content =>
              rw [held] at arrived
              cases arrived
              rfl

/-- A path that a file can be written through leads to a place for it. -/
theorem follow_true_ok {target : Target} (followed : disk.follow true path = .ok target) :
    target = .directory ∨ ∃ place, disk.Reaches path place ∧ target = disk.found place := by
  rw [follow_eq] at followed
  cases lawful : pathError? path with
  | some error =>
      rw [lawful] at followed
      cases followed
  | none =>
      rw [lawful] at followed
      cases reached : disk.reach path with
      | error failure =>
          rw [reached] at followed
          cases followed
      | ok directory =>
          rw [reached] at followed
          rcases arrive_true_ok followed with nowhere | ⟨bare, proper, short, plain, rfl⟩
          · exact .inl nowhere
          · cases last : (Place.names path).getLast? with
            | none =>
                rw [last] at proper
                exact absurd rfl proper.1
            | some name =>
                rw [last] at proper short plain
                exact .inr ⟨_, .named lawful bare reached last proper short plain, by rfl⟩

/-! ### Reading and changing a file -/

/-- What a file holds after a text is added to what it held before. -/
def extended (before : Option Content) (text : String) : Content :=
  match before with
  | none => .text text
  | some (.text old) => .text (old ++ text)
  | some (.bytes old) => .bytes (old ++ text.toUTF8.toList)

/-- What reading a place gives. -/
def readAt (disk : Disk) (place : Place) : Except FileError String :=
  match disk.content? place with
  | none => .error .notFound
  | some (.text text) => .ok text
  | some (.bytes _) => .error .notText

theorem read_run_snd (disk : Disk) (path : String) : ((read path).run disk).2 = disk := by
  rcases followed : disk.follow false path with error | (_ | ⟨_, _ | _⟩ | _) <;>
    (simp [read, followed]; rfl)

theorem read_of_reaches (reaches : disk.Reaches path place) :
    (read path).run disk = (disk.readAt place, disk) := by
  have followed := reaches.follow_eq false
  unfold found at followed
  simp only [read, readAt, StateT.run_bind, StateT.run_get]
  rcases held : disk.content? place with _ | (text | raw) <;>
    (simp only [held] at followed; simp [followed]; rfl)

theorem write_of_reaches (reaches : disk.Reaches path place) (text : String) :
    (write path text).run disk = (.ok (), disk.put place (.text text)) := by
  have followed := reaches.follow_eq true
  unfold found at followed
  simp only [write, StateT.run_bind, StateT.run_get]
  cases held : disk.content? place <;> (simp only [held] at followed; simp [followed]; rfl)

theorem append_of_reaches (reaches : disk.Reaches path place) (text : String) :
    (append path text).run disk =
      (.ok (), disk.put place (extended (disk.content? place) text)) := by
  have followed := reaches.follow_eq true
  unfold found at followed
  simp only [append, extended, StateT.run_bind, StateT.run_get]
  rcases held : disk.content? place with _ | (old | raw) <;>
    (simp only [held] at followed; simp [followed]; rfl)

theorem change_of_unreached (unreached : ∀ place, ¬disk.Reaches path place) (text : String) :
    ∃ error, (write path text).run disk = (.error error, disk) ∧
      (append path text).run disk = (.error error, disk) := by
  simp only [write, append, StateT.run_bind, StateT.run_get]
  cases followed : disk.follow true path with
  | error error => exact ⟨error, by simp [followed]; rfl⟩
  | ok target =>
      rcases follow_true_ok followed with rfl | ⟨place, reaches, _⟩
      · exact ⟨.isDirectory, by simp [followed]; rfl⟩
      · exact absurd reaches (unreached place)

/-- A text is written where the path leads, and nothing happens if it leads nowhere. -/
theorem write_cases (disk : Disk) (path text : String) :
    (∃ place, disk.Reaches path place ∧
      (write path text).run disk = (.ok (), disk.put place (.text text))) ∨
    ∃ error, (write path text).run disk = (.error error, disk) := by
  by_cases reached : ∃ place, disk.Reaches path place
  · rcases reached with ⟨place, reaches⟩
    exact .inl ⟨place, reaches, write_of_reaches reaches text⟩
  · rcases change_of_unreached (not_exists.mp reached) text with ⟨error, failed, _⟩
    exact .inr ⟨error, failed⟩

end Disk

end VirtualHosts
