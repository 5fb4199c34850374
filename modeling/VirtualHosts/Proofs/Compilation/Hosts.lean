/-
The run over the hosts of an application, and what a compilation that succeeds consists
of.  Each host adds the server block of its own walk, and hands on the registrations.
-/

import VirtualHosts.Proofs.Compilation.Visits

namespace VirtualHosts.Compilation

variable {α : Type}

def Progress.walk (settings : Settings) (progress : Progress α) (host : Host α) : Walk α where
  server := serverDirectives settings host ⟨"server", progress.http.depth + 1, []⟩
  backend := progress.backend
  created := progress.created
  registered := progress.registered

theorem Progress.visitHost_ok {settings : Settings} {progress after : Progress α}
    {host : Host α} (visited : progress.visitHost settings host = .ok after) :
    ∃ walk, host.visits.foldlM (Walk.visit settings host) (progress.walk settings host) =
        .ok walk ∧
      after.http = progress.http.add walk.server.toEntry ∧
      after.backend = walk.backend ∧ after.created = walk.created ∧
      after.registered = walk.registered := by
  change (do
    let walk ← Walk.visitHost settings host (progress.walk settings host)
    return ({
      http := progress.http.clause "server" fun _ => walk.server
      aliases := _, backend := walk.backend, created := walk.created
      registered := walk.registered } : Progress α)) = .ok after at visited
  rw [Walk.visitHost_eq settings host _ rfl] at visited
  cases ran : host.visits.foldlM (Walk.visit settings host) (progress.walk settings host) with
  | error failure =>
      rw [ran] at visited
      cases visited
  | ok walk =>
      rw [ran] at visited
      cases visited
      exact ⟨walk, rfl, rfl, rfl, rfl, rfl⟩

def Progress.start (settings : Settings) : Progress α where
  http := httpDirectives settings.boilerplate
    ⟨"http", (globalDirectives settings.boilerplate .root).depth + 1, []⟩

theorem build_ok {settings : Settings} {backend : Backend α} {app : Application α}
    {compilation : Compilation α} (compiled : build settings backend app = .ok compilation) :
    ∃ progress,
      app.hosts.foldlM (Progress.visitHost settings) (Progress.start settings) = .ok progress ∧
      (∀ registrations, progress.backend = some registrations →
        backend.check registrations = .ok ()) ∧
      compilation.config =
        (globalDirectives settings.boilerplate .root).add progress.http.toEntry ∧
      compilation.backend = progress.backend ∧
      compilation.aliases = progress.aliases ∧
      compilation.registrations = progress.registered ∧
      compilation.created = progress.created := by
  change (do
    let progress ← app.hosts.foldlM (Progress.visitHost settings) (Progress.start settings)
    _) = Except.ok compilation at compiled
  cases ran : app.hosts.foldlM (Progress.visitHost settings) (Progress.start settings) with
  | error failure =>
      rw [ran] at compiled
      cases compiled
  | ok progress =>
      rw [ran] at compiled
      simp only [bind, Except.bind] at compiled
      refine ⟨progress, rfl, ?_⟩
      cases held : progress.backend with
      | none =>
          rw [held] at compiled
          cases compiled
          refine ⟨?_, rfl, rfl, rfl, rfl, rfl⟩
          intro _ impossible
          cases impossible
      | some registrations =>
          rw [held] at compiled
          cases checked : backend.check registrations with
          | error failure =>
              simp only [checked] at compiled
              cases compiled
          | ok accepted =>
              simp only [checked] at compiled
              cases compiled
              refine ⟨?_, rfl, rfl, rfl, rfl, rfl⟩
              intro others same
              cases same
              exact checked

theorem Progress.visitHost_aliases {settings : Settings} {progress after : Progress α}
    {host : Host α} (visited : progress.visitHost settings host = .ok after) :
    after.aliases = if progress.aliases.contains host.hostname then progress.aliases
      else progress.aliases ++ [host.hostname] := by
  change (do
    let walk ← Walk.visitHost settings host (progress.walk settings host)
    return ({
      http := progress.http.clause "server" fun _ => walk.server
      aliases := if progress.aliases.contains host.hostname then progress.aliases
        else progress.aliases ++ [host.hostname]
      backend := walk.backend, created := walk.created
      registered := walk.registered } : Progress α)) = .ok after at visited
  cases ran : Walk.visitHost settings host (progress.walk settings host) with
  | error failure =>
      rw [ran] at visited
      cases visited
  | ok walk =>
      rw [ran] at visited
      cases visited
      rfl

/-- The aliases of a compilation are the hostnames, each where it was declared first. -/
theorem build_aliases {settings : Settings} {backend : Backend α} {app : Application α}
    {compilation : Compilation α} (compiled : build settings backend app = .ok compilation) :
    compilation.aliases = (app.hosts.map (·.hostname)).eraseDups := by
  rcases build_ok compiled with ⟨progress, ran, _, _, _, named, _⟩
  rw [named]
  refine foldlM_ok_induction (fun seen (progress : Progress α) =>
    progress.aliases = (seen.map (·.hostname)).eraseDups) rfl ?_ ran
  intro seen host before after holds visited
  rw [Progress.visitHost_aliases visited, List.map_append, List.map_singleton,
    eraseDups_concat, holds]
  simp only [List.contains_iff_mem, List.mem_eraseDups]

end VirtualHosts.Compilation
