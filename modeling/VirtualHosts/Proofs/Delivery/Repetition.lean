/-
The same application delivered again.

An alias that was asked for and changes nothing when it is asked for again is settled, and
stays so whatever other aliases are asked for.  Hostnames that are words settle at once,
so a second delivery finds every file as it would leave it, even where the configuration
is written over the hosts file itself.
-/

import VirtualHosts.Proofs.Delivery

namespace VirtualHosts.Compilation

open HostsFile

variable {α : Type} {settings : Settings} {disk : Disk}

/-- What holds of a disk, and still holds when a file is put where the hosts file is, holds
after aliases were asked for. -/
theorem aliased_induction {motive : Disk → Prop} (start : motive disk)
    (grows : ∀ disk place content, motive disk →
      disk.Reaches settings.hostsFile.path place → motive (disk.put place content))
    (names : List String) :
    motive (settings.onDisk.aliased names disk) := by
  induction names generalizing disk with
  | nil => exact start
  | cons name rest ih =>
      apply ih
      change motive ((setAlias Disk.fileSystem settings.hostsFile.path name).run disk).2
      rcases setAlias_cases disk settings.hostsFile.path name with
        ⟨error, failed⟩ | ⟨content, _, same⟩ | ⟨place, content, reaches, _, _, grew⟩
      · rw [failed]
        exact start
      · rw [same]
        exact start
      · rw [grew]
        exact grows disk place _ start reaches

theorem settled_aliased {known : String}
    (settled : Settled disk settings.hostsFile.path known) (names : List String) :
    Settled (settings.onDisk.aliased names disk) settings.hostsFile.path known := by
  induction names generalizing disk with
  | nil => exact settled
  | cons name rest ih => exact ih (settled.kept name)

theorem aliased_of_settled {names : List String}
    (settled : ∀ name ∈ names, Settled disk settings.hostsFile.path name) :
    settings.onDisk.aliased names disk = disk := by
  induction names with
  | nil => rfl
  | cons name rest ih =>
      have first : ((setAlias Disk.fileSystem settings.hostsFile.path name).run disk).2 = disk :=
        settled name List.mem_cons_self
      change settings.onDisk.aliased rest
        ((setAlias Disk.fileSystem settings.hostsFile.path name).run disk).2 = disk
      rw [first]
      exact ih fun later member => settled later (List.mem_cons_of_mem _ member)

theorem settled_of_aliased {names : List String} (words : ∀ name ∈ names, isWord name = true) :
    ∀ name ∈ names,
      Settled (settings.onDisk.aliased names disk) settings.hostsFile.path name := by
  induction names generalizing disk with
  | nil =>
      intro name member
      cases member
  | cons first rest ih =>
      intro name member
      rcases List.mem_cons.mp member with rfl | later
      · exact settled_aliased (settled_after (words name member) disk _) rest
      · exact ih (fun name member => words name (List.mem_cons_of_mem _ member)) name later

theorem reaches_aliased {path : String} {place : Place} (reaches : disk.Reaches path place)
    (names : List String) :
    (settings.onDisk.aliased names disk).Reaches path place := by
  refine aliased_induction (motive := fun disk => disk.Reaches path place) reaches ?_ names
  intro disk other content holds there
  exact holds.put there.room content

/-- Where the hosts file is, writing again gives back the disk before the aliases. -/
theorem put_aliased_of_eq {place : Place}
    (same : Place.ofPath settings.hostsFile.path = place) (disk : Disk) (content : Content)
    (names : List String) :
    (settings.onDisk.aliased names (disk.put place content)).put place content =
      disk.put place content := by
  refine aliased_induction (motive := fun after => after.put place content =
    disk.put place content) (Disk.put_put _ _ _ _) ?_ names
  intro before other added holds reaches
  rw [reaches.place_eq, same, Disk.put_put]
  exact holds

/-- Elsewhere, writing again changes nothing. -/
theorem put_aliased_of_ne {place : Place}
    (apart : Place.ofPath settings.hostsFile.path ≠ place) (disk : Disk) (content : Content)
    (names : List String) :
    (settings.onDisk.aliased names (disk.put place content)).put place content =
      settings.onDisk.aliased names (disk.put place content) := by
  refine aliased_induction (motive := fun after => after.put place content = after)
    (Disk.put_put _ _ _ _) ?_ names
  intro before other added holds reaches
  rw [reaches.place_eq]
  exact Disk.put_put_of_settled holds apart added

/-- Writing again and asking again for aliases of words leaves the disk as it is. -/
theorem aliased_put_aliased {names : List String} (words : ∀ name ∈ names, isWord name = true)
    (disk : Disk) (place : Place) (content : Content) :
    settings.onDisk.aliased names
        ((settings.onDisk.aliased names (disk.put place content)).put place content) =
      settings.onDisk.aliased names (disk.put place content) := by
  by_cases same : Place.ofPath settings.hostsFile.path = place
  · rw [put_aliased_of_eq same]
  · rw [put_aliased_of_ne same]
    exact aliased_of_settled (settled_of_aliased words)

section

variable {backend : Backend α} {app : Application α} {compilation : Compilation α}

theorem deliver_of_reaches {place : Place}
    (built : build settings backend app = .ok compilation)
    (reaches : disk.Reaches settings.outputPath place) :
    (deliver settings backend settings.onDisk app).run disk =
      (.ok compilation,
        if settings.hostsFile.manage then
          settings.onDisk.aliased compilation.aliases
            (disk.put place (.text compilation.render))
        else disk.put place (.text compilation.render)) := by
  have stored : (settings.onDisk.write settings.outputPath compilation.render).run disk =
      (.ok (), disk.put place (.text compilation.render)) :=
    Disk.write_of_reaches reaches _
  rw [deliver_run, built]
  dsimp only
  rw [stored]

theorem deliver_of_unwritten {error : FileError}
    (built : build settings backend app = .ok compilation)
    (failed : (Disk.write settings.outputPath compilation.render).run disk = (.error error, disk)) :
    (deliver settings backend settings.onDisk app).run disk =
      (.error (.write settings.outputPath error), disk) := by
  have same : (settings.onDisk.write settings.outputPath compilation.render).run disk =
      (.error error, disk) := failed
  rw [deliver_run, built]
  dsimp only
  rw [same]

/-- A delivery to the disk that another one left comes to the same result and leaves the
disk as it is. -/
theorem deliver_again {result : Except CompilationError (Compilation α)} {after : Disk}
    (words : settings.hostsFile.manage = true →
      ∀ host ∈ app.hosts, isWord host.hostname = true)
    (ran : (deliver settings backend settings.onDisk app).run disk = (result, after)) :
    (deliver settings backend settings.onDisk app).run after = (result, after) := by
  cases built : build settings backend app with
  | error error =>
      rw [deliver_run, built] at ran ⊢
      cases ran
      rfl
  | ok compilation =>
      rcases Disk.write_cases disk settings.outputPath compilation.render with
        ⟨place, reaches, _⟩ | ⟨error, failed⟩
      · rw [deliver_of_reaches built reaches] at ran
        cases managed : settings.hostsFile.manage with
        | false =>
            simp only [managed, Bool.false_eq_true, if_false] at ran
            cases ran
            rw [deliver_of_reaches built (reaches.put reaches.room _), managed]
            simp only [Disk.put_put, Bool.false_eq_true, if_false]
        | true =>
            simp only [managed, if_true] at ran
            cases ran
            have named : ∀ name ∈ compilation.aliases, isWord name = true := by
              intro name member
              rw [build_aliases built, List.mem_eraseDups] at member
              rcases List.mem_map.mp member with ⟨host, declared, rfl⟩
              exact words managed host declared
            rw [deliver_of_reaches built
              (reaches_aliased (reaches.put reaches.room _) compilation.aliases), managed]
            simp only [if_true, aliased_put_aliased named]
      · rw [deliver_of_unwritten built failed] at ran
        cases ran
        exact deliver_of_unwritten built failed

end

/-- Aliases converge exactly for hostnames that are words: after an alias could be asked
for, asking again finds it, and for any other hostname adds one more line.  A delivery with
such hostnames, or without aliases, leaves what a second one leaves. -/
theorem aliases_converge (disk : Disk) :
    (∀ path hostname added after,
      (setAlias Disk.fileSystem path hostname).run disk = (.ok added, after) →
        if isWord hostname = true then
          (setAlias Disk.fileSystem path hostname).run after = (.ok false, after)
        else
          ∃ grown, (setAlias Disk.fileSystem path hostname).run after = (.ok true, grown) ∧
            grown ≠ after) ∧
    ∀ (settings : Settings) (backend : Backend α) (app : Application α) result after,
      (settings.hostsFile.manage = true → ∀ host ∈ app.hosts, isWord host.hostname = true) →
      (deliver settings backend settings.onDisk app).run disk = (result, after) →
      (deliver settings backend settings.onDisk app).run after = (result, after) := by
  constructor
  · intro path hostname added after ran
    exact setAlias_again ran
  · intro settings backend app result after words ran
    exact deliver_again words ran

theorem shared_names_delivered_twice :
    (∃ once,
      (setAlias Disk.fileSystem "/etc/hosts" "a.test").run machine = (.ok true, once) ∧
      (setAlias Disk.fileSystem "/etc/hosts" "a.test").run once = (.ok false, once)) ∧
    ∃ result after,
      (deliver {} ⟨fun _ => .ok ()⟩ (Command.surroundings Disk.fileSystem {}) sharedNames).run
        machine = (result, after) ∧
      (deliver {} ⟨fun _ => .ok ()⟩ (Command.surroundings Disk.fileSystem {}) sharedNames).run
        after = (result, after) := by
  have word : isWord "a.test" = true := by decide +kernel
  have words : ∀ host ∈ sharedNames.hosts, isWord host.hostname = true := by decide +kernel
  have converges := aliases_converge (α := Nat) machine
  constructor
  · have again := converges.1 "/etc/hosts" "a.test" true _ rfl
    rw [if_pos word] at again
    exact ⟨_, rfl, again⟩
  · exact ⟨_, _, rfl, converges.2 {} _ sharedNames _ _ (fun _ => words) rfl⟩

/-- A hostname that two words make is accepted, and added again each time. -/
theorem two_words_added_twice :
    ∃ (host : Host Nat) (once twice : Disk), Host.declare "a b" {} = .ok host ∧
      (setAlias Disk.fileSystem "/etc/hosts" host.hostname).run {} = (.ok true, once) ∧
      (setAlias Disk.fileSystem "/etc/hosts" host.hostname).run once = (.ok true, twice) ∧
      once.content? ["etc", "hosts"] = some (.text "127.0.0.1 a b\n") ∧
      twice.content? ["etc", "hosts"] = some (.text "127.0.0.1 a b\n127.0.0.1 a b\n") :=
  ⟨_, _, _, rfl, rfl, rfl, rfl, rfl⟩

end VirtualHosts.Compilation
