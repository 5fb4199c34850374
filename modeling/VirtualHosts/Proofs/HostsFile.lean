/-
A hosts file read back after an alias was added to it.

Adding appends one line and leaves the lines in front of it as they were.  The reader
cuts that line at number signs and blank characters, so it finds the hostname again
if the hostname has neither; one that has them is never found, in whatever file.  Every
other hostname is found after the addition just where it was found before.
-/

import Mathlib.Data.List.TakeWhile
import VirtualHosts.HostsFile
import VirtualHosts.Proofs.FileSystem
import VirtualHosts.Proofs.Text

namespace VirtualHosts.HostsFile

/-! ### Names that a line can hold -/

/-- A hostname that stands in a line as one name. -/
def isWord (hostname : String) : Bool :=
  !hostname.toList.isEmpty && hostname.toList.all fun c => !Text.isBlank c && c != '#'

theorem isWord_iff (hostname : String) : isWord hostname = true ↔
    hostname.toList ≠ [] ∧ ∀ c ∈ hostname.toList, Text.isBlank c = false ∧ c ≠ '#' := by
  simp [isWord]

theorem toLower_cases (c : Char) : c.toLower = c ∨
    65 ≤ c.toNat ∧ c.toNat ≤ 90 ∧ c.toLower.toNat = c.toNat + 32 := by
  unfold Char.toLower
  split
  · rename_i upper
    have from_A : 65 ≤ c.val.toNat := UInt32.le_iff_toNat_le.mp upper.1
    have to_Z : c.val.toNat ≤ 90 := UInt32.le_iff_toNat_le.mp upper.2
    refine .inr ⟨from_A, to_Z, ?_⟩
    change (c.val + ('a'.val - 'A'.val)).toNat = c.val.toNat + 32
    rw [UInt32.toNat_add]
    change (c.val.toNat + 32) % 4294967296 = c.val.toNat + 32
    omega
  · exact .inl rfl

theorem isBlank_toLower (c : Char) : Text.isBlank c.toLower = Text.isBlank c := by
  rcases toLower_cases c with same | ⟨from_A, to_Z, lowered⟩
  · rw [same]
  · rw [Bool.eq_iff_iff]
    simp only [Text.isBlank, lowered, Bool.or_eq_true, Bool.and_eq_true, decide_eq_true_eq,
      beq_iff_eq]
    omega

theorem toLower_eq_numberSign_iff (c : Char) : c.toLower = '#' ↔ c = '#' := by
  rcases toLower_cases c with same | ⟨from_A, to_Z, lowered⟩
  · rw [same]
  · have lower_apart : c.toLower ≠ '#' := by
      intro same
      rw [same] at lowered
      change 35 = c.toNat + 32 at lowered
      omega
    have upper_apart : c ≠ '#' := by
      intro same
      rw [same] at from_A
      cases (by decide : ¬65 ≤ '#'.toNat) from_A
    exact iff_of_false lower_apart upper_apart

theorem isWord_of_sameIgnoringCase {left right : String}
    (same : Text.sameIgnoringCase left right = true) : isWord left = isWord right := by
  have lowered : left.toList.map Char.toLower = right.toList.map Char.toLower := by
    have texts : Text.lower left = Text.lower right := eq_of_beq same
    simpa [Text.lower] using congrArg String.toList texts
  have reads (hostname : String) : isWord hostname =
      (!(hostname.toList.map Char.toLower).isEmpty &&
        (hostname.toList.map Char.toLower).all fun c => !Text.isBlank c && c != '#') := by
    have each (c : Char) : (!Text.isBlank c.toLower && c.toLower != '#') =
        (!Text.isBlank c && c != '#') := by
      have sign : (c.toLower == '#') = (c == '#') := by
        rw [Bool.eq_iff_iff, beq_iff_eq, beq_iff_eq]
        exact toLower_eq_numberSign_iff c
      rw [isBlank_toLower, bne, bne, sign]
    simp [isWord, List.all_map, Function.comp_def, each]
  rw [reads left, reads right, lowered]

theorem isWord_of_mem_fields {line field : List Char}
    (cut : field ∈ Text.fields (line.takeWhile (· != '#'))) :
    isWord (String.ofList field) = true := by
  rcases List.mem_filter.mp cut with ⟨piece, some⟩
  rw [isWord_iff, String.toList_ofList]
  constructor
  · simpa using some
  · intro c member
    have kept := Text.mem_of_mem_pieces piece c member
    have plain := List.mem_takeWhile_imp kept.1
    exact ⟨kept.2, by simpa using plain⟩

theorem isWord_of_mem_lineNames {line : List Char} {name : String}
    (named : name ∈ lineNames line) : isWord name = true := by
  have cut : ∃ field ∈ Text.fields (line.takeWhile (· != '#')), String.ofList field = name := by
    apply List.mem_map.mp
    unfold lineNames at named
    split at named
    · rename_i address names split
      rw [split]
      split at named
      · exact List.mem_cons_of_mem _ named
      · cases named
    · cases named
  rcases cut with ⟨field, cut, rfl⟩
  exact isWord_of_mem_fields cut

/-- What is found in a hosts file is a word. -/
theorem isWord_of_hasAlias {content hostname : String}
    (found : hasAlias content hostname = true) : isWord hostname = true := by
  unfold hasAlias at found
  simp only [List.any_eq_true] at found
  rcases found with ⟨line, _, name, named, same⟩
  rw [← isWord_of_sameIgnoringCase same]
  exact isWord_of_mem_lineNames named

/-! ### The line that is added -/

/-- The lines in front of the one that is added, each with its end. -/
def ended (content : String) : List Char :=
  if content.isEmpty || content.toList.getLast? == some '\n' then content.toList
  else content.toList ++ ['\n']

def aliasLine (hostname : String) : List Char :=
  loopback.toList ++ ' ' :: hostname.toList

theorem toList_added (content hostname : String) :
    (content ++ addition content hostname).toList =
      ended content ++ (aliasLine hostname ++ ['\n']) := by
  unfold addition ended aliasLine
  split <;> simp

theorem added_ne (content hostname : String) :
    content ++ addition content hostname ≠ content := by
  intro same
  have lengths := congrArg (·.toList.length) same
  simp [addition] at lengths

theorem ended_cases (content : String) :
    ended content = [] ∨ ∃ front, ended content = front ++ ['\n'] := by
  unfold ended
  split
  · rename_i already
    rcases Bool.or_eq_true_iff.mp already with empty | last
    · exact .inl (by simpa using empty)
    · exact .inr ⟨_, (List.dropLast_append_getLast? '\n' (by simpa using last)).symm⟩
  · exact .inr ⟨_, rfl⟩

theorem lines_concat (chars : List Char) :
    Text.lines (chars ++ ['\n']) = Text.lines chars ++ [[]] :=
  Text.lines_append_break chars []

theorem lines_ended_append (content : String) (rest : List Char) :
    Text.lines (ended content ++ rest) = (Text.lines (ended content)).dropLast ++
      Text.lines rest := by
  rcases ended_cases content with empty | ⟨front, cut⟩
  · rw [empty]
    rfl
  · rw [cut, lines_concat, List.dropLast_concat, List.append_assoc]
    exact Text.lines_append_break front rest

/-- What some line tells is told in front of the line that is added, unless an empty line
tells it. -/
theorem any_lines_ended (content : String) {told : List Char → Bool} (silent : told [] = false) :
    (Text.lines (ended content)).dropLast.any told = (Text.lines content.toList).any told := by
  by_cases already : ended content = content.toList
  · rcases ended_cases content with empty | ⟨front, ends⟩
    · rw [← already, empty]
      change false = (told [] || false)
      rw [silent, Bool.or_false]
    · rw [← already, ends, lines_concat, List.dropLast_concat, List.any_append]
      simp [silent]
  · have ends : ended content = content.toList ++ ['\n'] := by
      unfold ended at already ⊢
      split at already
      · exact absurd rfl already
      · rw [if_neg ‹_›]
    rw [ends, lines_concat, List.dropLast_concat]

theorem aliasLine_plain {hostname : String} (word : isWord hostname = true) :
    ∀ c ∈ aliasLine hostname, c ≠ '#' ∧ c ≠ '\n' := by
  intro c member
  rcases List.mem_append.mp member with address | after
  · have digits : (loopback.toList.all fun c => c != '#' && c != '\n') = true := by decide
    simpa using List.all_eq_true.mp digits c address
  · rcases List.mem_cons.mp after with rfl | name
    · decide
    · have plain := ((isWord_iff hostname).mp word).2 c name
      refine ⟨plain.2, ?_⟩
      rintro rfl
      cases plain.1

theorem lineNames_aliasLine {hostname : String} (word : isWord hostname = true) :
    lineNames (aliasLine hostname) = [hostname] := by
  rcases (isWord_iff hostname).mp word with ⟨some, plain⟩
  have unsigned : (aliasLine hostname).takeWhile (· != '#') = aliasLine hostname := by
    apply List.takeWhile_eq_self_iff.mpr
    intro c member
    exact bne_iff_ne.mpr (aliasLine_plain word c member).1
  have cut : Text.pieces Text.isBlank (aliasLine hostname) =
      [loopback.toList, hostname.toList] := by
    have address : Text.pieces Text.isBlank loopback.toList = [loopback.toList] := by decide
    unfold aliasLine
    rw [Text.pieces_append_separator rfl, address,
      Text.pieces_of_forall fun c member => (plain c member).1]
    rfl
  have fields : Text.fields (aliasLine hostname) = [loopback.toList, hostname.toList] := by
    have named : hostname.toList.isEmpty = false := by simpa using some
    have addressed : loopback.toList.isEmpty = false := by decide
    unfold Text.fields
    rw [cut]
    simp [named, addressed]
  unfold lineNames
  rw [unsigned, fields]
  simp

theorem lines_aliasLine {hostname : String} (word : isWord hostname = true) :
    Text.lines (aliasLine hostname ++ ['\n']) = [aliasLine hostname, []] := by
  have unbroken : '\n' ∉ aliasLine hostname := fun member =>
    (aliasLine_plain word '\n' member).2 rfl
  rw [lines_concat, Text.lines_of_unbroken unbroken]
  rfl

/-- After an addition a name is found where it was found before, and in the line that is added. -/
theorem hasAlias_append (content hostname name : String) :
    hasAlias (content ++ addition content hostname) name =
      (hasAlias content name || (Text.lines (aliasLine hostname ++ ['\n'])).any fun line =>
        (lineNames line).any (Text.sameIgnoringCase · name)) := by
  unfold hasAlias
  rw [toList_added, lines_ended_append, List.any_append, any_lines_ended content rfl]

theorem hasAlias_append_word (content : String) {hostname : String}
    (word : isWord hostname = true) (name : String) :
    hasAlias (content ++ addition content hostname) name =
      (hasAlias content name || Text.sameIgnoringCase hostname name) := by
  have empty : lineNames [] = [] := rfl
  rw [hasAlias_append, lines_aliasLine word, List.any_cons, List.any_cons, List.any_nil,
    lineNames_aliasLine word, empty, List.any_cons, List.any_nil]
  simp

/-- A hostname that is a word is found after it was added. -/
theorem hasAlias_added (content : String) {hostname : String} (word : isWord hostname = true) :
    hasAlias (content ++ addition content hostname) hostname = true := by
  rw [hasAlias_append_word content word]
  simp [Text.sameIgnoringCase]

/-- What was found is found after anything was added. -/
theorem hasAlias_kept {content known : String} (found : hasAlias content known = true)
    (hostname : String) : hasAlias (content ++ addition content hostname) known = true := by
  rw [hasAlias_append, found, Bool.true_or]

/-! ### Aliases on a disk -/

variable {disk : Disk} {place : Place} {path : String}

/-- What a place on the disk says as a hosts file; bytes that are no text say nothing. -/
def textAt? (disk : Disk) (place : Place) : Option String :=
  match disk.content? place with
  | none => some ""
  | some (.text text) => some text
  | some (.bytes _) => none

/-- What a hosts file says, a missing one included. -/
def contentOf (read : Except FileError String) : Except FileError String :=
  match read with
  | .error .notFound => .ok ""
  | other => other

theorem setAlias_run (disk : Disk) (path hostname : String) :
    (setAlias Disk.fileSystem path hostname).run disk =
      match contentOf ((Disk.read path).run disk).1 with
      | .error error => (.error error, disk)
      | .ok content =>
          if hasAlias content hostname then (.ok false, disk)
          else
            let appended := (Disk.append path (addition content hostname)).run disk
            (appended.1.map fun () => true, appended.2) := by
  have kept : (Disk.read path).run disk = (((Disk.read path).run disk).1, disk) :=
    Prod.ext rfl (Disk.read_run_snd disk path)
  have after (content : String) : (do
      if hasAlias content hostname then return .ok false
      else
        return (← Disk.append path (addition content hostname)).map fun () => true :
      StateM Disk (Except FileError Bool)).run disk =
        if hasAlias content hostname then (.ok false, disk)
        else
          let appended := (Disk.append path (addition content hostname)).run disk
          (appended.1.map fun () => true, appended.2) := by
    by_cases known : hasAlias content hostname = true
    · simp only [known, if_true]
      rfl
    · simp only [known, Bool.false_eq_true, if_false]
      rfl
  unfold setAlias contentOf Disk.fileSystem
  simp only [StateT.run_bind]
  rw [kept]
  rcases ((Disk.read path).run disk).1 with error | content
  · cases error with
    | notFound => exact after ""
    | _ => rfl
  · exact after content

theorem setAlias_of_reaches (reaches : disk.Reaches path place) (hostname : String) :
    (setAlias Disk.fileSystem path hostname).run disk =
      match textAt? disk place with
      | none => (.error .notText, disk)
      | some content =>
          if hasAlias content hostname then (.ok false, disk)
          else (.ok true, disk.put place (.text (content ++ addition content hostname))) := by
  rw [setAlias_run, Disk.read_of_reaches reaches]
  unfold textAt? Disk.readAt
  simp only [Disk.append_of_reaches reaches, Disk.extended]
  rcases disk.content? place with _ | (text | raw)
  · simp [contentOf, Except.map]
  · simp [contentOf, Except.map]
  · simp [contentOf]

theorem setAlias_of_unreached (unreached : ∀ place, ¬disk.Reaches path place)
    (hostname : String) :
    (∃ error, (setAlias Disk.fileSystem path hostname).run disk = (.error error, disk)) ∨
      (∃ content, hasAlias content hostname = true ∧
        (setAlias Disk.fileSystem path hostname).run disk = (.ok false, disk)) := by
  rw [setAlias_run]
  cases contentOf ((Disk.read path).run disk).1 with
  | error error => exact .inl ⟨error, rfl⟩
  | ok content =>
      by_cases known : hasAlias content hostname = true
      · exact .inr ⟨content, known, if_pos known⟩
      · rcases Disk.change_of_unreached unreached (addition content hostname) with
          ⟨error, _, failed⟩
        simp only [failed, if_neg known]
        exact .inl ⟨error, rfl⟩

/-- What asking for an alias can do: fail and leave the disk, find the hostname and leave
the disk, or add a line where the path leads. -/
theorem setAlias_cases (disk : Disk) (path hostname : String) :
    (∃ error, (setAlias Disk.fileSystem path hostname).run disk = (.error error, disk)) ∨
    (∃ content, hasAlias content hostname = true ∧
      (setAlias Disk.fileSystem path hostname).run disk = (.ok false, disk)) ∨
    (∃ place content, disk.Reaches path place ∧ textAt? disk place = some content ∧
      hasAlias content hostname = false ∧
      (setAlias Disk.fileSystem path hostname).run disk =
        (.ok true, disk.put place (.text (content ++ addition content hostname)))) := by
  by_cases reached : ∃ place, disk.Reaches path place
  · rcases reached with ⟨place, reaches⟩
    rw [setAlias_of_reaches reaches]
    cases held : textAt? disk place with
    | none => exact .inl ⟨.notText, rfl⟩
    | some content =>
        cases known : hasAlias content hostname with
        | true => exact .inr (.inl ⟨content, known, if_pos known⟩)
        | false => exact .inr (.inr ⟨place, content, reaches, held, known, by simp [known]⟩)
  · rcases setAlias_of_unreached (not_exists.mp reached) hostname with failed | present
    · exact .inl failed
    · exact .inr (.inl present)

/-! ### Aliases asked for again -/

theorem textAt?_put_self (disk : Disk) (place : Place) (text : String) :
    textAt? (disk.put place (.text text)) place = some text := by
  unfold textAt?
  rw [Disk.content?_put, if_pos rfl]

theorem setAlias_of_added (reaches : disk.Reaches path place) (content hostname : String) :
    (setAlias Disk.fileSystem path hostname).run (disk.put place (.text content)) =
      if hasAlias content hostname then (.ok false, disk.put place (.text content))
      else (.ok true, disk.put place (.text (content ++ addition content hostname))) := by
  rw [setAlias_of_reaches (reaches.put reaches.room _), textAt?_put_self]
  dsimp only
  rw [Disk.put_put]

/-- After an alias could be asked for, asking again finds it if the hostname is a word, and
adds another line if it is none. -/
theorem setAlias_again {hostname : String} {added : Bool} {after : Disk}
    (ran : (setAlias Disk.fileSystem path hostname).run disk = (.ok added, after)) :
    if isWord hostname = true then
      (setAlias Disk.fileSystem path hostname).run after = (.ok false, after)
    else
      ∃ grown, (setAlias Disk.fileSystem path hostname).run after = (.ok true, grown) ∧
        grown ≠ after := by
  rcases setAlias_cases disk path hostname with ⟨error, failed⟩ | ⟨content, known, same⟩ |
    ⟨place, content, reaches, held, new, grew⟩
  · rw [failed] at ran
    cases ran
  · rw [same] at ran
    cases ran
    rw [if_pos (isWord_of_hasAlias known)]
    exact same
  · rw [grew] at ran
    cases ran
    rw [setAlias_of_added reaches]
    by_cases word : isWord hostname = true
    · rw [if_pos word, if_pos (hasAlias_added content word)]
    · rw [if_neg word, if_neg (word ∘ isWord_of_hasAlias)]
      refine ⟨_, rfl, ?_⟩
      intro same
      have texts := congrArg (textAt? · place) same
      rw [textAt?_put_self, textAt?_put_self, Option.some.injEq] at texts
      exact added_ne _ hostname texts

/-- Asking for the alias changes nothing. -/
def Settled (disk : Disk) (path hostname : String) : Prop :=
  ((setAlias Disk.fileSystem path hostname).run disk).2 = disk

theorem settled_after {hostname : String} (word : isWord hostname = true) (disk : Disk)
    (path : String) :
    Settled ((setAlias Disk.fileSystem path hostname).run disk).2 path hostname := by
  unfold Settled
  rcases setAlias_cases disk path hostname with ⟨error, failed⟩ | ⟨content, known, same⟩ |
    ⟨place, content, reaches, held, new, grew⟩
  · rw [failed, failed]
  · rw [same, same]
  · rw [grew, setAlias_of_added reaches, if_pos (hasAlias_added content word)]

theorem hasAlias_of_settled {hostname content : String} (reaches : disk.Reaches path place)
    (held : textAt? disk place = some content) (settled : Settled disk path hostname) :
    hasAlias content hostname = true := by
  unfold Settled at settled
  rw [setAlias_of_reaches reaches, held] at settled
  by_cases known : hasAlias content hostname = true
  · exact known
  · simp only [if_neg known] at settled
    have grown := textAt?_put_self disk place (content ++ addition content hostname)
    rw [settled, held, Option.some.injEq] at grown
    exact absurd grown.symm (added_ne content hostname)

theorem Settled.kept {known : String} (settled : Settled disk path known)
    (hostname : String) :
    Settled ((setAlias Disk.fileSystem path hostname).run disk).2 path known := by
  rcases setAlias_cases disk path hostname with ⟨error, failed⟩ | ⟨content, _, same⟩ |
    ⟨place, content, reaches, held, new, grew⟩
  · rw [failed]
    exact settled
  · rw [same]
    exact settled
  · have found := hasAlias_of_settled reaches held settled
    unfold Settled
    rw [grew, setAlias_of_added reaches, if_pos (hasAlias_kept found hostname)]

/-! ### One alias more -/

/-- The line, up to its first number sign, begins with the loopback address, and the name is
among the words behind it, in large or small letters. -/
def Names (line : List Char) (name : String) : Prop :=
  ∃ words, (Text.fields (line.takeWhile (· != '#'))).map String.ofList = loopback :: words ∧
    ∃ word ∈ words, Text.sameIgnoringCase word name = true

theorem names_iff (line : List Char) (name : String) :
    Names line name ↔ (lineNames line).any (Text.sameIgnoringCase · name) = true := by
  unfold Names lineNames
  rw [List.any_eq_true]
  cases (Text.fields (line.takeWhile (· != '#'))).map String.ofList with
  | nil => simp
  | cons address words =>
      by_cases home : address = loopback
      · simp [home]
      · simp [home]

theorem hasAlias_iff (content name : String) :
    hasAlias content name = true ↔ ∃ line ∈ Text.lines content.toList, Names line name := by
  simp only [hasAlias, List.any_eq_true (l := Text.lines content.toList), names_iff]

/-- An alias that some line names is left alone, with the whole disk.  One that no line names is
added behind the old content, and then the file has the aliases that it had, and this one.  No
other file changes. -/
theorem setAlias_adds_one_alias (reaches : disk.Reaches path place) {content : String}
    (held : textAt? disk place = some content) {hostname : String}
    (word : isWord hostname = true) :
    ((setAlias Disk.fileSystem path hostname).run disk = (.ok false, disk) ↔
      ∃ line ∈ Text.lines content.toList, Names line hostname) ∧
    ((¬∃ line ∈ Text.lines content.toList, Names line hostname) →
      ∃ after added, (setAlias Disk.fileSystem path hostname).run disk = (.ok true, after) ∧
        textAt? after place = some (content ++ added) ∧
        (∀ other, other ≠ place → after.content? other = disk.content? other) ∧
        ∀ name, hasAlias (content ++ added) name = true ↔
          hasAlias content name = true ∨ Text.sameIgnoringCase name hostname = true) := by
  rw [← hasAlias_iff, setAlias_of_reaches reaches, held]
  constructor
  · constructor
    · intro unchanged
      by_contra unknown
      simp only [if_neg unknown] at unchanged
      cases unchanged
    · intro known
      exact if_pos known
  · intro unknown
    refine ⟨disk.put place (.text (content ++ addition content hostname)),
      addition content hostname, if_neg unknown, textAt?_put_self disk place _, ?_, ?_⟩
    · intro other apart
      rw [Disk.content?_put, if_neg apart]
    · intro name
      rw [hasAlias_append_word content word, Bool.or_eq_true]
      have turned : Text.sameIgnoringCase hostname name = Text.sameIgnoringCase name hostname :=
        BEq.comm
      rw [turned]

def commentedText : String :=
  "127.0.0.1 localhost\r\n# 127.0.0.1 App.test\n127.0.0.1 other # app.test"

def commented : Disk where
  files := [(["etc", "hosts"], .text commentedText)]

theorem setAlias_adds_one_alias_commented :
    commented.Reaches "/etc/hosts" ["etc", "hosts"] ∧
      textAt? commented ["etc", "hosts"] = some commentedText ∧ isWord "App.test" = true ∧
    ∃ after added, (setAlias Disk.fileSystem "/etc/hosts" "App.test").run commented =
        (.ok true, after) ∧
      textAt? after ["etc", "hosts"] = some (commentedText ++ added) ∧
      hasAlias (commentedText ++ added) "APP.TEST" = true ∧
      hasAlias (commentedText ++ added) "OTHER" = true ∧
      hasAlias (commentedText ++ added) "app" = false := by
  have reached : commented.reach "/etc/hosts" = .ok ["etc"] := by decide +kernel
  have last : (Place.names "/etc/hosts").getLast? = some "hosts" := by decide +kernel
  have reaches : commented.Reaches "/etc/hosts" ["etc", "hosts"] :=
    .named (by decide +kernel) (by decide +kernel) reached last
      ⟨by decide, by decide, by decide⟩ (by decide +kernel) (by decide +kernel)
  have word : isWord "App.test" = true := by decide +kernel
  have unknown : hasAlias commentedText "App.test" = false := by decide +kernel
  have held : textAt? commented ["etc", "hosts"] = some commentedText := rfl
  have outcome := setAlias_adds_one_alias reaches held word
  rw [← hasAlias_iff, unknown] at outcome
  obtain ⟨after, added, ran, grown, _, aliases⟩ := outcome.2 Bool.false_ne_true
  refine ⟨reaches, held, word, after, added, ran, grown, ?_, ?_, ?_⟩
  · exact (aliases "APP.TEST").mpr (.inr (by decide +kernel))
  · exact (aliases "OTHER").mpr (.inl (by decide +kernel))
  · rw [← Bool.not_eq_true, aliases]
    decide +kernel

end VirtualHosts.HostsFile
