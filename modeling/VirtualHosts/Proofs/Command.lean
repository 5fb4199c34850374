/-
Checking a manifest beside compiling it.

The options of a compilation say where it writes and whether it asks for aliases.  A build
reads neither, so both commands build the same and fail for the same reason, up to the
write that only one of them has.
-/

import VirtualHosts.Proofs.Delivery.Repetition

namespace VirtualHosts

/-! ### Settings that no build reads -/

theorem Walk.visitHost_elsewhere {α : Type} (settings : Settings) (path : String)
    (hostsFile : HostsFileSettings) (host : Host α) (walk : Walk α)
    (fresh : walk.middleware = []) :
    walk.visitHost { settings with outputPath := path, hostsFile := hostsFile } host =
      walk.visitHost settings host := by
  have visit : Walk.visit { settings with outputPath := path, hostsFile := hostsFile } host =
      Walk.visit settings host := by
    funext walk visit
    cases visit <;> rfl
  rw [visitHost_eq _ host walk fresh, visitHost_eq _ host walk fresh, visit]

namespace Compilation

variable {α : Type}

theorem Progress.visitHost_elsewhere (settings : Settings) (path : String)
    (hostsFile : HostsFileSettings) :
    (visitHost { settings with outputPath := path, hostsFile := hostsFile } :
      Progress α → Host α → _) = visitHost settings := by
  funext progress host
  unfold visitHost
  rw [Walk.visitHost_elsewhere settings path hostsFile host _ rfl]
  rfl

/-- A build is the same wherever its configuration and its aliases go. -/
theorem build_elsewhere (settings : Settings) (path : String)
    (hostsFile : HostsFileSettings) (backend : Backend α) (app : Application α) :
    build { settings with outputPath := path, hostsFile := hostsFile } backend app =
      build settings backend app := by
  unfold build
  rw [Progress.visitHost_elsewhere]

end Compilation

namespace Command

theorem build_apply {α : Type} (overrides : Overrides) (settings : Settings)
    (backend : Backend α) (app : Application α) :
    Compilation.build (overrides.apply settings) backend app =
      Compilation.build settings backend app := by
  unfold Overrides.apply
  split
  · exact Compilation.build_elsewhere settings _ _ backend app
  · exact Compilation.build_elsewhere settings _ settings.hostsFile backend app

/-! ### Runs that only read -/

/-- A run on a disk that never changes it. -/
def OnlyReads {β : Type} (action : StateM Disk β) : Prop :=
  ∀ disk, (action.run disk).2 = disk

namespace OnlyReads

variable {β γ : Type}

theorem pure (value : β) : OnlyReads (Pure.pure value) := fun _ => rfl

theorem bind {action : StateM Disk β} {next : β → StateM Disk γ} (first : OnlyReads action)
    (rest : ∀ value, OnlyReads (next value)) : OnlyReads (action >>= next) := by
  intro disk
  change ((next (action.run disk).1).run (action.run disk).2).2 = disk
  rw [rest, first]

theorem read (path : String) : OnlyReads (Disk.read path) :=
  fun disk => Disk.read_run_snd disk path

theorem run_eq {action : StateM Disk β} (reads : OnlyReads action) (disk : Disk) :
    action.run disk = ((action.run disk).1, disk) :=
  Prod.ext rfl (reads disk)

end OnlyReads

theorem resolveSettings_onlyReads (manifest : Manifest) (name : Option String) :
    OnlyReads (resolveSettings Disk.read manifest name) := by
  cases name with
  | none => exact .pure _
  | some name => exact .bind (.read name) fun _ => .pure _

theorem load_onlyReads (sources : Sources) : OnlyReads (load Disk.read sources) := by
  apply OnlyReads.bind (.read sources.manifest)
  intro text
  split
  · exact .pure _
  · rename_i manifest _
    exact .bind (resolveSettings_onlyReads manifest sources.settings) fun _ => .pure _

/-! ### What both commands find out first -/

/-- What is loaded from a disk. -/
def loaded (sources : Sources) (disk : Disk) : Except Failure (Manifest × Settings) :=
  ((load Disk.read sources).run disk).1

theorem load_run (sources : Sources) (disk : Disk) :
    (load Disk.read sources).run disk = (loaded sources disk, disk) :=
  (load_onlyReads sources).run_eq disk

/-- The settings and the application that a disk declares. -/
def declared (sources : Sources) (disk : Disk) :
    Except Failure (Settings × Application FixedHandler) := do
  let (manifest, settings) ← loaded sources disk
  let app ← manifest.toApplication.mapError .declaration
  return (settings, app)

theorem declared_eq_ok {sources : Sources} {disk : Disk} {settings : Settings}
    {app : Application FixedHandler} (found : declared sources disk = .ok (settings, app)) :
    ∃ manifest, loaded sources disk = .ok (manifest, settings) ∧
      manifest.toApplication = .ok app := by
  obtain ⟨⟨manifest, known⟩, read, rest⟩ := bind_eq_ok_iff.mp found
  obtain ⟨same, translated, ends⟩ := bind_eq_ok_iff.mp rest
  cases ends
  exact ⟨manifest, read, mapError_eq_ok_iff.mp translated⟩

/-- Where nothing is declared, the sources were not loaded or do not declare an application. -/
theorem declared_eq_error {sources : Sources} {disk : Disk} {failure : Failure}
    (undeclared : declared sources disk = .error failure) :
    loaded sources disk = .error failure ∨
      ∃ manifest settings error, loaded sources disk = .ok (manifest, settings) ∧
        manifest.toApplication = .error error ∧ failure = .declaration error := by
  unfold declared at undeclared
  cases read : loaded sources disk with
  | error earlier =>
      rw [read] at undeclared
      cases undeclared
      exact .inl rfl
  | ok found =>
      obtain ⟨manifest, settings⟩ := found
      cases translated : manifest.toApplication with
      | error error =>
          simp only [read, translated, bind, Except.bind, Except.mapError] at undeclared
          cases undeclared
          exact .inr ⟨manifest, settings, error, rfl, translated, rfl⟩
      | ok app =>
          simp only [read, translated, bind, Except.bind, Except.mapError] at undeclared
          cases undeclared

/-! ### Checking -/

section

variable {sources : Sources} {disk : Disk} {logs : LogLines} {print : Bool}

theorem validate_onlyReads (logs : LogLines) (sources : Sources) (print : Bool) :
    OnlyReads (validate Disk.read logs sources print) := by
  apply OnlyReads.bind (load_onlyReads sources)
  intro found
  split
  · exact .pure _
  · split
    · exact .pure _
    · split <;> exact .pure _

theorem validate_of_undeclared {failure : Failure}
    (undeclared : declared sources disk = .error failure) :
    (validate Disk.read logs sources print).run disk =
      (stopped logs.loading (.failed failure), disk) := by
  refine (run_bind_of_run (load_run sources disk)).trans ?_
  rcases declared_eq_error undeclared with unread | ⟨manifest, settings, error, read, none, rfl⟩
  · rw [unread]
    rfl
  · simp only [read, none]
    rfl

variable {settings : Settings} {app : Application FixedHandler}

theorem validate_of_unbuilt {error : CompilationError}
    (found : declared sources disk = .ok (settings, app))
    (unbuilt : Compilation.build settings Dispatch.backend app = .error error) :
    (validate Disk.read logs sources print).run disk =
      (stopped (logs.loading ++ logs.compiling) (.ofError "Compilation failed" error), disk) := by
  obtain ⟨manifest, read, translated⟩ := declared_eq_ok found
  refine (run_bind_of_run (load_run sources disk)).trans ?_
  simp only [read, translated, unbuilt]
  rfl

theorem validate_of_built {compilation : Compilation FixedHandler}
    (found : declared sources disk = .ok (settings, app))
    (built : Compilation.build settings Dispatch.backend app = .ok compilation) :
    (validate Disk.read logs sources print).run disk =
      (succeeded (logs.loading ++ logs.compiling)
        ((if print then compilation.render ++ "\n" else "") ++
          s!"✅ Manifest is valid ({app.hosts.length} hosts, {compilation.registrations} process endpoints)\n"),
        disk) := by
  obtain ⟨manifest, read, translated⟩ := declared_eq_ok found
  refine (run_bind_of_run (load_run sources disk)).trans ?_
  simp only [read, translated, built]
  rfl

end

/-! ### Compiling -/

section

variable {sources : Sources} {overrides : Overrides} {disk after : Disk} {logs : LogLines}

theorem compile_of_undeclared {failure : Failure}
    (undeclared : declared sources disk = .error failure) :
    (compile Disk.fileSystem logs sources overrides).run disk =
      (stopped logs.loading (.failed failure), disk) := by
  refine (run_bind_of_run (load_run sources disk)).trans ?_
  rcases declared_eq_error undeclared with unread | ⟨manifest, settings, error, read, none, rfl⟩
  · rw [unread]
    rfl
  · simp only [read, none]
    rfl

variable {settings : Settings} {app : Application FixedHandler}
  {compilation : Compilation FixedHandler}

/-- Of an application that is declared, only the delivery can still fail. -/
theorem compile_of_undelivered {error : CompilationError}
    (found : declared sources disk = .ok (settings, app))
    (undelivered : (Compilation.deliver (overrides.apply settings) Dispatch.backend
      (overrides.apply settings).onDisk app).run disk = (.error error, after)) :
    (compile Disk.fileSystem logs sources overrides).run disk =
      (stopped (logs.loading ++ logs.compiling) (.ofError "Compilation failed" error),
        after) := by
  obtain ⟨manifest, read, translated⟩ := declared_eq_ok found
  refine (run_bind_of_run (load_run sources disk)).trans ?_
  simp only [read, translated]
  exact run_bind_of_run undelivered

theorem compile_of_delivered (found : declared sources disk = .ok (settings, app))
    (delivered : (Compilation.deliver (overrides.apply settings) Dispatch.backend
      (overrides.apply settings).onDisk app).run disk = (.ok compilation, after)) :
    (compile Disk.fileSystem logs sources overrides).run disk =
      (succeeded (logs.loading ++ logs.compiling)
        s!"✅ Wrote {(overrides.apply settings).outputPath} ({app.hosts.length} hosts, {compilation.registrations} process endpoints)\n",
        after) := by
  obtain ⟨manifest, read, translated⟩ := declared_eq_ok found
  refine (run_bind_of_run (load_run sources disk)).trans ?_
  simp only [read, translated]
  exact run_bind_of_run delivered

/-- The options of a compilation do not make it build, nor keep it from building. -/
theorem compile_of_unbuilt {error : CompilationError}
    (found : declared sources disk = .ok (settings, app))
    (unbuilt : Compilation.build settings Dispatch.backend app = .error error) :
    (compile Disk.fileSystem logs sources overrides).run disk =
      (stopped (logs.loading ++ logs.compiling) (.ofError "Compilation failed" error), disk) := by
  apply compile_of_undelivered found
  rw [Compilation.deliver_run, build_apply, unbuilt]

/-- The disk after a compilation that wrote its output to a place. -/
def leaves (settings : Settings) (compilation : Compilation FixedHandler) (place : Place)
    (disk : Disk) : Disk :=
  let written := disk.put place (.text compilation.render)
  if settings.hostsFile.manage then settings.onDisk.aliased compilation.aliases written
  else written

theorem compile_of_reaches {place : Place}
    (found : declared sources disk = .ok (settings, app))
    (built : Compilation.build settings Dispatch.backend app = .ok compilation)
    (reaches : disk.Reaches (overrides.apply settings).outputPath place) :
    (compile Disk.fileSystem logs sources overrides).run disk =
      (succeeded (logs.loading ++ logs.compiling)
        s!"✅ Wrote {(overrides.apply settings).outputPath} ({app.hosts.length} hosts, {compilation.registrations} process endpoints)\n",
        leaves (overrides.apply settings) compilation place disk) := by
  rw [← build_apply overrides] at built
  exact compile_of_delivered found (Compilation.deliver_of_reaches built reaches)

theorem compile_of_unwritten {error : FileError}
    (found : declared sources disk = .ok (settings, app))
    (built : Compilation.build settings Dispatch.backend app = .ok compilation)
    (unwritten : (Disk.write (overrides.apply settings).outputPath compilation.render).run disk =
      (.error error, disk)) :
    (compile Disk.fileSystem logs sources overrides).run disk =
      (stopped (logs.loading ++ logs.compiling) (.ofError "Compilation failed"
        (.write (overrides.apply settings).outputPath error)), disk) := by
  rw [← build_apply overrides] at built
  exact compile_of_undelivered found (Compilation.deliver_of_unwritten built unwritten)

/-- A compilation that fails, be it in the write, leaves the disk as it was. -/
theorem compile_leaves {finished : Finished}
    (ran : (compile Disk.fileSystem logs sources overrides).run disk = (finished, after))
    (refused : finished.exitCode ≠ 0) : after = disk := by
  cases found : declared sources disk with
  | error failure =>
      rw [compile_of_undeclared found] at ran
      cases ran
      rfl
  | ok pair =>
      obtain ⟨settings, app⟩ := pair
      cases built : Compilation.build settings Dispatch.backend app with
      | error error =>
          rw [compile_of_unbuilt found built] at ran
          cases ran
          rfl
      | ok compilation =>
          rcases Disk.write_cases disk (overrides.apply settings).outputPath
            compilation.render with ⟨place, reaches, _⟩ | ⟨error, failed⟩
          · rw [compile_of_reaches found built reaches] at ran
            cases ran
            exact absurd rfl refused
          · rw [compile_of_unwritten found built failed] at ran
            cases ran
            rfl

end

/-! ### Both commands on one disk -/

/-- The output of a run can be written, and is not the hosts file. -/
structure HasOutput (disk : Disk) (settings : Settings) : Prop where
  writable : ∃ text, ((Disk.write settings.outputPath text).run disk).1 = .ok ()
  apart : Place.ofPath settings.outputPath ≠ Place.ofPath settings.hostsFile.path

section

variable {disk : Disk} {settings : Settings}

theorem HasOutput.reaches (output : HasOutput disk settings) :
    disk.Reaches settings.outputPath (Place.ofPath settings.outputPath) := by
  obtain ⟨text, wrote⟩ := output.writable
  rcases Disk.write_cases disk settings.outputPath text with
    ⟨place, reaches, _⟩ | ⟨error, failed⟩
  · exact reaches.place_eq ▸ reaches
  · rw [failed] at wrote
    cases wrote

theorem content?_leaves (output : HasOutput disk settings)
    (compilation : Compilation FixedHandler) :
    let place := Place.ofPath settings.outputPath
    (leaves settings compilation place disk).content? place = some (.text compilation.render) := by
  intro place
  have stored : (disk.put place (.text compilation.render)).content? place =
      some (.text compilation.render) := by
    rw [Disk.content?_put, if_pos rfl]
  have apart := Disk.separates output.apart
  unfold leaves
  dsimp only
  split
  · exact (Compilation.aliased_keeps_output _ apart _ _).trans stored
  · exact stored

end

theorem Ending.exitCode_eq_zero {ending : Ending} :
    ending.exitCode = 0 ↔ ending = .succeeded := by
  cases ending <;> simp [exitCode]

theorem Ending.ofError_ne_succeeded (task : String) (error : CompilationError) :
    ofError task error ≠ succeeded := by
  unfold ofError
  split <;> simp

/-- Checking a manifest leaves the disk alone, and so does compiling it when it fails.  With an
output that can be written and is not the hosts file, one succeeds if and only if the other
does, they end the same way when they fail, and what checking prints is what compiling writes,
whatever the options say, with the same counts behind it.  In front of what is printed stand
the lines of logging, which are different ones in the two runs; when logging is off there is
nothing but what is printed. -/
theorem validate_agrees_with_compile {listen : Listen (StateM Disk)}
    {checkLogs compileLogs : LogLines} {sources : Sources} {print : Bool}
    {overrides : Overrides} {disk left written : Disk} {validated compiled : Finished}
    (validates : (run Disk.fileSystem listen checkLogs (.validate sources print)).run disk =
      (validated, left))
    (compiles : (run Disk.fileSystem listen compileLogs (.compile sources overrides)).run disk =
      (compiled, written)) :
    left = disk ∧ (compiled.exitCode ≠ 0 → written = disk) ∧
    ((∀ manifest settings, loaded sources disk = .ok (manifest, settings) →
        HasOutput disk (overrides.apply settings)) →
      (validated.exitCode = 0 ↔ compiled.exitCode = 0) ∧
      (validated.exitCode ≠ 0 → compiled.ending = validated.ending ∧
        validated.printed = "" ∧ compiled.printed = "") ∧
      (validated.exitCode = 0 → ∃ manifest settings app compilation,
        loaded sources disk = .ok (manifest, settings) ∧
        manifest.toApplication = .ok app ∧
        Compilation.build settings Dispatch.backend app = .ok compilation ∧
        written.content? (Place.ofPath (overrides.apply settings).outputPath) =
          some (.text compilation.config.render) ∧
        validated.printed = (if print then compilation.config.render ++ "\n" else "") ++
          s!"✅ Manifest is valid ({app.hosts.length} hosts, {compilation.registrations} process endpoints)\n" ∧
        compiled.printed =
          s!"✅ Wrote {(overrides.apply settings).outputPath} ({app.hosts.length} hosts, {compilation.registrations} process endpoints)\n" ∧
        validated.output = checkLogs.loading ++ checkLogs.compiling ++ validated.printed ∧
        compiled.output = compileLogs.loading ++ compileLogs.compiling ++ compiled.printed ∧
        (checkLogs = .off → validated.output = validated.printed))) := by
  change (validate Disk.read checkLogs sources print).run disk = _ at validates
  change (compile Disk.fileSystem compileLogs sources overrides).run disk = _ at compiles
  have unread : left = disk := by
    rw [← validate_onlyReads checkLogs sources print disk, validates]
  refine ⟨unread, compile_leaves compiles, fun output => ?_⟩
  cases found : declared sources disk with
  | error failure =>
      rw [validate_of_undeclared found] at validates
      rw [compile_of_undeclared found] at compiles
      cases validates
      cases compiles
      refine ⟨Iff.rfl, fun _ => ⟨rfl, rfl, rfl⟩, fun accepted => ?_⟩
      cases Ending.exitCode_eq_zero.mp accepted
  | ok pair =>
      obtain ⟨settings, app⟩ := pair
      cases built : Compilation.build settings Dispatch.backend app with
      | error error =>
          rw [validate_of_unbuilt found built] at validates
          rw [compile_of_unbuilt found built] at compiles
          cases validates
          cases compiles
          refine ⟨Iff.rfl, fun _ => ⟨rfl, rfl, rfl⟩, fun accepted => ?_⟩
          exact absurd (Ending.exitCode_eq_zero.mp accepted) (Ending.ofError_ne_succeeded _ error)
      | ok compilation =>
          obtain ⟨manifest, read, translated⟩ := declared_eq_ok found
          have apart := output manifest settings read
          rw [validate_of_built found built] at validates
          rw [compile_of_reaches found built apart.reaches] at compiles
          cases validates
          cases compiles
          refine ⟨Iff.rfl, fun refused => absurd rfl refused, fun _ => ?_⟩
          refine ⟨manifest, settings, app, compilation, read, translated, built,
            content?_leaves apart compilation, rfl, rfl, rfl, rfl, ?_⟩
          rintro rfl
          exact String.empty_append

def site : Disk where
  files := [
    (["etc", "hosts"], .text "127.0.0.1 localhost\n"),
    (["tmp", "work", "panela.toml"], .text ("[settings]\nindex = \"home.html\"\n" ++
      "[[host]]\nhostname = \"a.test\"\n[[host.endpoint]]\npath = \"/\"\n" ++
      "[host.endpoint.respond]\nbody = \"a\"\n"))]

def toEtc : Overrides where
  output := some "/etc/nginx.conf"

def listenAnywhere : Listen (StateM Disk) := fun address _ =>
  return .ok address

def noisy : LogLines where
  compiling := " INFO panela_config::compiler: Compiling host a.test:80\n"

theorem validate_agrees_with_compile_site :
    let validated := (run Disk.fileSystem listenAnywhere noisy (.validate {} true)).run site
    let compiled := (run Disk.fileSystem listenAnywhere .off (.compile {} toEtc)).run site
    (∀ manifest settings, loaded {} site = .ok (manifest, settings) →
      HasOutput site (toEtc.apply settings)) ∧
    validated.2 = site ∧ validated.1.exitCode = 0 ∧ compiled.1.exitCode = 0 ∧
    ∃ rendered,
      validated.1.output = " INFO panela_config::compiler: Compiling host a.test:80\n" ++
        validated.1.printed ∧
      validated.1.printed = rendered ++ "\n" ++
        "✅ Manifest is valid (1 hosts, 1 process endpoints)\n" ∧
      compiled.1.printed = "✅ Wrote /etc/nginx.conf (1 hosts, 1 process endpoints)\n" ∧
      compiled.2.content? ["etc", "nginx.conf"] = some (.text rendered) := by
  intro validated compiled
  have output : ∀ manifest settings, loaded {} site = .ok (manifest, settings) →
      HasOutput site (toEtc.apply settings) := by
    intro manifest settings read
    have found : (loaded {} site).toOption.map (·.2) = some { index := "home.html" } := by
      decide +kernel
    rw [read] at found
    cases found
    exact ⟨⟨"", by decide +kernel⟩, by decide +kernel⟩
  have accepted : validated.1.exitCode = 0 := by decide +kernel
  have place : Place.ofPath "/etc/nginx.conf" = ["etc", "nginx.conf"] := by decide +kernel
  have counted : ((declared {} site).toOption.bind fun (settings, app) =>
      (Compilation.build settings Dispatch.backend app).toOption.map fun compilation =>
        (app.hosts.length, compilation.registrations)) = some (1, 1) := by
    decide +kernel
  have validates : (run Disk.fileSystem listenAnywhere noisy (.validate {} true)).run site =
      (validated.1, validated.2) := rfl
  have compiles : (run Disk.fileSystem listenAnywhere .off (.compile {} toEtc)).run site =
      (compiled.1, compiled.2) := rfl
  obtain ⟨unread, _, agree⟩ := validate_agrees_with_compile validates compiles
  obtain ⟨same, _, outcome⟩ := agree output
  obtain ⟨manifest, settings, app, compilation, read, translated, built, stored, told, receipt,
    whole, _⟩ := outcome accepted
  have found : declared {} site = .ok (settings, app) := by
    simp only [declared, read, translated, bind, Except.bind, Except.mapError, pure, Except.pure]
  obtain ⟨hosts, registrations⟩ :
      app.hosts.length = 1 ∧ compilation.registrations = 1 := by
    simpa [found, built, Except.toOption] using counted
  rw [hosts, registrations] at told receipt
  change compiled.2.content? (Place.ofPath "/etc/nginx.conf") = _ at stored
  rw [place] at stored
  exact ⟨output, unread, accepted, same.mp accepted, compilation.config.render, whole, told,
    receipt, stored⟩

end Command

end VirtualHosts
