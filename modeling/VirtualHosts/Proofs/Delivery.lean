/-
What a delivery leaves in the files, and when.

A delivery compiles, writes, and asks for aliases, in this order, and goes on only if
nothing failed so far.  Whatever writing and aliasing do to the state of the files, a
delivery that fails leaves the files as they were if a failed write does; one that
succeeds has written the rendering and asked for every alias, whatever came of it.
-/

import VirtualHosts.Command
import VirtualHosts.Proofs.Compilation.Hosts
import VirtualHosts.Proofs.HostsFile

namespace VirtualHosts

variable {α σ : Type}

/-- The state after aliases were asked for, one after the other. -/
def Surroundings.aliased (surroundings : Surroundings (StateM σ)) (names : List String)
    (state : σ) : σ :=
  names.foldl (fun state name => ((surroundings.setAlias name).run state).2) state

/-- A file to write, seen as `output`, and a hosts file, seen as `hosts`, that are
different files: a write stores the whole text or has no effect and does not touch the
hosts file, and aliases do not touch what was written. -/
structure Surroundings.Separates {τ : Type} (surroundings : Surroundings (StateM σ))
    (path : String) (output : σ → Option Content) (hosts : σ → τ) : Prop where
  stored : ∀ {text state after},
    (surroundings.write path text).run state = (.ok (), after) →
      output after = some (.text text) ∧ hosts after = hosts state
  refused : ∀ {text state error after},
    (surroundings.write path text).run state = (.error error, after) →
      output after = output state ∧ hosts after = hosts state
  apart : ∀ name state,
    output ((surroundings.setAlias name).run state).2 = output state

namespace Compilation

variable (settings : Settings) (backend : Backend α) (surroundings : Surroundings (StateM σ))

theorem setAliases_run (names : List String) (state : σ) :
    (setAliases surroundings names).run state = ((), surroundings.aliased names state) := by
  induction names generalizing state with
  | nil => rfl
  | cons name rest ih => exact ih ((surroundings.setAlias name).run state).2

theorem deliver_run (app : Application α) (state : σ) :
    (deliver settings backend surroundings app).run state =
      match build settings backend app with
      | .error error => (.error error, state)
      | .ok compilation =>
          match (surroundings.write settings.outputPath compilation.render).run state with
          | (.error error, after) => (.error (.write settings.outputPath error), after)
          | (.ok (), written) => (.ok compilation,
              if settings.hostsFile.manage then
                surroundings.aliased compilation.aliases written
              else written) := by
  unfold deliver
  cases build settings backend app with
  | error error => rfl
  | ok compilation =>
      simp only [StateT.run_bind]
      rcases (surroundings.write settings.outputPath compilation.render).run state with
        ⟨error | ⟨⟩, after⟩
      · rfl
      · cases settings.hostsFile.manage with
        | false => rfl
        | true =>
            have asked := setAliases_run surroundings compilation.aliases after
            change (do
              let asked ← (setAliases surroundings compilation.aliases).run after
              pure (Except.ok compilation, asked.2) : Id _) = _
            rw [asked]
            rfl

theorem aliased_keeps_output {τ : Type} {path : String} {output : σ → Option Content}
    {hosts : σ → τ} (separate : surroundings.Separates path output hosts)
    (names : List String) (state : σ) :
    output (surroundings.aliased names state) = output state := by
  induction names generalizing state with
  | nil => rfl
  | cons name rest ih => exact (ih _).trans (separate.apart name state)

section

variable {settings backend surroundings} {app : Application α} {state after : σ}

/-- A delivery fails in the build, which touches nothing, or in the write, and then nothing
comes after it. -/
theorem deliver_error {error : CompilationError}
    (ran : (deliver settings backend surroundings app).run state = (.error error, after)) :
    (build settings backend app = .error error ∧ after = state) ∨
      ∃ compilation failure, build settings backend app = .ok compilation ∧
        (surroundings.write settings.outputPath compilation.render).run state =
          (.error failure, after) ∧
        error = .write settings.outputPath failure := by
  rw [deliver_run] at ran
  cases built : build settings backend app with
  | error failure =>
      rw [built] at ran
      cases ran
      exact .inl ⟨rfl, rfl⟩
  | ok compilation =>
      rw [built] at ran
      dsimp only at ran
      rcases wrote : (surroundings.write settings.outputPath compilation.render).run state with
        ⟨failure | ⟨⟩, left⟩
      · rw [wrote] at ran
        cases ran
        exact .inr ⟨compilation, failure, rfl, wrote, rfl⟩
      · rw [wrote] at ran
        cases ran

/-- A delivery that succeeds has written what is built, and then asked for the aliases. -/
theorem deliver_ok {compilation : Compilation α}
    (ran : (deliver settings backend surroundings app).run state = (.ok compilation, after)) :
    build settings backend app = .ok compilation ∧
      ∃ written, (surroundings.write settings.outputPath compilation.render).run state =
          (.ok (), written) ∧
        after = if settings.hostsFile.manage then
            surroundings.aliased (app.hosts.map (·.hostname)).eraseDups written
          else written := by
  rw [deliver_run] at ran
  cases built : build settings backend app with
  | error failure =>
      rw [built] at ran
      cases ran
  | ok made =>
      rw [built] at ran
      dsimp only at ran
      rcases wrote : (surroundings.write settings.outputPath made.render).run state with
        ⟨failure | ⟨⟩, written⟩
      · rw [wrote] at ran
        cases ran
      · rw [wrote] at ran
        cases ran
        rw [build_aliases built]
        exact ⟨rfl, written, wrote, rfl⟩

end

/-- A delivery that fails leaves both files as they were; one that succeeds has stored the
rendering of what is built, and asked for an alias for each hostname once, in the order
of their first declaration.  Whether it succeeds is up to the build and the write. -/
theorem deliver_all_or_nothing {τ : Type} {output : σ → Option Content} {hosts : σ → τ}
    (separate : surroundings.Separates settings.outputPath output hosts)
    (app : Application α) (state : σ) :
    (∀ error after,
      (deliver settings backend surroundings app).run state = (.error error, after) →
        output after = output state ∧ hosts after = hosts state ∧
          (build settings backend app = .error error ∨
            ∃ compilation failure, build settings backend app = .ok compilation ∧
              (surroundings.write settings.outputPath compilation.config.render).run state =
                (.error failure, after) ∧
              error = .write settings.outputPath failure)) ∧
    ∀ compilation after,
      (deliver settings backend surroundings app).run state = (.ok compilation, after) →
        build settings backend app = .ok compilation ∧
          output after = some (.text compilation.config.render) ∧
          ∃ written, (surroundings.write settings.outputPath compilation.config.render).run state =
              (.ok (), written) ∧ hosts written = hosts state ∧
            hosts after = if settings.hostsFile.manage then
                hosts (surroundings.aliased (app.hosts.map (·.hostname)).eraseDups written)
              else hosts state := by
  constructor
  · intro error after ran
    rcases deliver_error ran with ⟨failed, rfl⟩ | ⟨compilation, failure, built, wrote, same⟩
    · exact ⟨rfl, rfl, .inl failed⟩
    · have kept := separate.refused wrote
      exact ⟨kept.1, kept.2, .inr ⟨compilation, failure, built, wrote, same⟩⟩
  · intro compilation after ran
    rcases deliver_ok ran with ⟨built, written, wrote, left⟩
    have stored := separate.stored wrote
    refine ⟨built, ?_, written, wrote, stored.2, ?_⟩
    · rw [left]
      split
      · exact (aliased_keeps_output surroundings separate _ written).trans stored.1
      · exact stored.1
    · rw [left]
      split
      · rfl
      · exact stored.2

end Compilation

/-! ### On a disk -/

/-- What a run with these settings has around it on a disk. -/
abbrev Settings.onDisk (settings : Settings) : Surroundings (StateM Disk) :=
  Command.surroundings Disk.fileSystem settings

/-- On a disk, paths that name different places lead to different files. -/
theorem Disk.separates {settings : Settings}
    (apart : Place.ofPath settings.outputPath ≠ Place.ofPath settings.hostsFile.path) :
    settings.onDisk.Separates settings.outputPath
      (·.content? (Place.ofPath settings.outputPath))
      (·.content? (Place.ofPath settings.hostsFile.path)) where
  stored := by
    intro text disk after wrote
    change (Disk.write settings.outputPath text).run disk = _ at wrote
    rcases Disk.write_cases disk settings.outputPath text with
      ⟨place, reaches, stored⟩ | ⟨error, failed⟩
    · rw [stored] at wrote
      cases wrote
      rw [Disk.content?_put, Disk.content?_put, reaches.place_eq, if_pos rfl,
        if_neg apart.symm]
      exact ⟨rfl, rfl⟩
    · rw [failed] at wrote
      cases wrote
  refused := by
    intro text disk error after wrote
    change (Disk.write settings.outputPath text).run disk = _ at wrote
    rcases Disk.write_cases disk settings.outputPath text with
      ⟨place, reaches, stored⟩ | ⟨error, failed⟩
    · rw [stored] at wrote
      cases wrote
    · rw [failed] at wrote
      cases wrote
      exact ⟨rfl, rfl⟩
  apart := by
    intro name disk
    change Disk.content?
      ((HostsFile.setAlias Disk.fileSystem settings.hostsFile.path name).run disk).2 _ = _
    rcases HostsFile.setAlias_cases disk settings.hostsFile.path name with
      ⟨error, failed⟩ | ⟨content, _, same⟩ | ⟨place, content, reaches, _, _, grew⟩
    · rw [failed]
    · rw [same]
    · rw [grew, Disk.content?_put, reaches.place_eq, if_neg apart]

namespace Compilation

def sharedNames : Application Nat := {
  hosts := [
    ⟨"a.test", {}, [.endpoint ⟨"/", .every, .process 1⟩], []⟩,
    ⟨"b.test", {}, [.endpoint ⟨"/", .every, .process 2⟩], []⟩,
    ⟨"a.test", { port := 8080 }, [.endpoint ⟨"/", .every, .process 3⟩], []⟩] }

def machine : Disk where
  files := [(["etc", "hosts"], .text "127.0.0.1 localhost\n")]

theorem shared_names_delivered_once :
    Place.ofPath "./panela-nginx.conf" ≠ Place.ofPath "/etc/hosts" ∧
      ∃ compilation after,
        (deliver {} ⟨fun _ => .ok ()⟩ (Command.surroundings Disk.fileSystem {}) sharedNames).run
          machine = (.ok compilation, after) ∧
        after.content? ["tmp", "work", "panela-nginx.conf"] = some (.text compilation.config.render) ∧
        after.content? ["etc", "hosts"] = some (.text
          "127.0.0.1 localhost\n127.0.0.1 a.test\n127.0.0.1 b.test\n") := by
  have apart : Place.ofPath "./panela-nginx.conf" ≠ Place.ofPath "/etc/hosts" := by
    decide +kernel
  have output : Place.ofPath "./panela-nginx.conf" = ["tmp", "work", "panela-nginx.conf"] := by
    decide +kernel
  have hosts : Place.ofPath "/etc/hosts" = ["etc", "hosts"] := by decide +kernel
  have names : (sharedNames.hosts.map (·.hostname)).eraseDups = ["a.test", "b.test"] := by
    decide +kernel
  have builds : (build {} ⟨fun _ => .ok ()⟩ sharedNames).isOk = true := by decide +kernel
  have writes (text : String) : (Disk.write "./panela-nginx.conf" text).run machine =
      (.ok (), machine.put ["tmp", "work", "panela-nginx.conf"] (.text text)) := rfl
  have outcome := deliver_all_or_nothing {} ⟨fun _ => .ok ()⟩
    (Command.surroundings Disk.fileSystem {}) (Disk.separates apart) sharedNames machine
  refine ⟨apart, ?_⟩
  rcases ran : (deliver {} ⟨fun _ => .ok ()⟩ (Command.surroundings Disk.fileSystem {})
    sharedNames).run machine with ⟨error | compilation, after⟩
  · rcases (outcome.1 error after ran).2.2 with failed | ⟨compilation, failure, _, failed, _⟩
    · rw [failed] at builds
      cases builds
    · cases failed
  · rcases outcome.2 compilation after ran with ⟨_, stored, written, wrote, _, aliased⟩
    rw [if_pos rfl, names, hosts] at aliased
    rw [output] at stored
    cases wrote.symm.trans (writes _)
    exact ⟨compilation, after, rfl, stored, aliased.trans rfl⟩

end Compilation

end VirtualHosts
