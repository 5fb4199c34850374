/-
The server blocks of a configuration.

A server block has one location for every location path among the endpoints of its
host, where the path first appears.  A path that comes again does so only for
endpoints that the process answers, and adds nothing.
-/

import Mathlib.Data.List.Forall2
import VirtualHosts.Proofs.Compilation.Hosts
import VirtualHosts.Proofs.Compilation.Positions

namespace VirtualHosts

variable {α : Type}

/-! ### Entries that are added in turn -/

namespace Nginx

theorem Clause.foldl_directive (directives : List (String × String)) (clause : Clause) :
    directives.foldl (fun clause (name, value) => clause.directive name value) clause =
      { clause with
        entries := clause.entries ++ directives.map fun (name, value) => .directive name value } := by
  induction directives generalizing clause with
  | nil => simp
  | cons first rest ih =>
      rw [List.foldl_cons, ih]
      simp [Clause.directive, Clause.add]

theorem Location.foldl_directive (directives : List (String × String)) (location : Location) :
    directives.foldl (fun location (name, value) => location.directive name value) location =
      { location with
        entries := location.entries ++
          directives.map fun (name, value) => .directive name value } := by
  induction directives generalizing location with
  | nil => simp
  | cons first rest ih =>
      rw [List.foldl_cons, ih]
      simp [Location.directive]

theorem Clause.locations_toEntry (clause : Clause) (locations : List Location) :
    ({ clause with entries := clause.entries ++ locations.map Location.toEntry } :
      Clause).locations = clause.locations ++ locations := by
  unfold Clause.locations
  rw [List.filterMap_append, List.filterMap_map]
  congr 1
  exact List.filterMap_some

end Nginx

/-! ### What a server block has to hold -/

def Endpoint.locationEntries (settings : Settings) (endpoint : Endpoint α) : List Nginx.Entry :=
  match endpoint.mode with
  | .static => [.directive "index" settings.index]
  | .file => [
      .directive "index" settings.index,
      .directive "try_files" ("/" ++ endpoint.fileName?.getD "" ++ " =404")]
  | .process => [
      .directive "proxy_pass" settings.proxy.url,
      .directive "proxy_http_version" "1.1",
      .directive "proxy_set_header" "Upgrade $http_upgrade",
      .directive "proxy_set_header" "Connection 'upgrade'",
      .directive "proxy_set_header" "Host $host",
      .directive "proxy_set_header" "x-forwarded-port $server_port",
      .directive "proxy_set_header" "X-Forwarded-For $remote_addr"]

theorem Endpoint.locationEntries_of_process (settings : Settings) {first second : Endpoint α}
    (firstMode : first.mode = .process) (secondMode : second.mode = .process) :
    first.locationEntries settings = second.locationEntries settings := by
  unfold locationEntries
  rw [firstMode, secondMode]

theorem Walk.locationDirectives_entries (settings : Settings) (endpoint : Endpoint α) :
    (locationDirectives settings endpoint).map
      (fun (name, value) => Nginx.Entry.directive name value) =
        endpoint.locationEntries settings := by
  unfold locationDirectives Endpoint.locationEntries
  cases endpoint.mode <;> rfl

def Endpoint.locationPath (endpoint : Endpoint α) : String :=
  VirtualHosts.locationPath endpoint.pathname

/-- The locations serve the endpoints: one for each path, where it first appears, with what the
mode of its endpoints asks for. -/
structure Serves (settings : Settings) (endpoints : List (Endpoint α))
    (locations : List Nginx.Location) : Prop where
  paths : locations.map Nginx.Location.path =
    (endpoints.map Endpoint.locationPath).eraseDups
  entries : ∀ location ∈ locations, ∀ endpoint ∈ endpoints,
    endpoint.locationPath = location.path →
      location.entries = endpoint.locationEntries settings
  modes : ∀ first ∈ endpoints, ∀ second ∈ endpoints,
    first.locationPath = second.locationPath → first.mode = second.mode

namespace Serves

variable {settings : Settings} {endpoints : List (Endpoint α)}
  {locations : List Nginx.Location} {endpoint : Endpoint α}

theorem mem_paths (serves : Serves settings endpoints locations) {location : Nginx.Location}
    (member : location ∈ locations) :
    ∃ endpoint ∈ endpoints, endpoint.locationPath = location.path := by
  have listed : location.path ∈ locations.map Nginx.Location.path :=
    List.mem_map.mpr ⟨location, member, rfl⟩
  rw [serves.paths, List.mem_eraseDups] at listed
  exact List.mem_map.mp listed

theorem concat_new (serves : Serves settings endpoints locations)
    (new : ∀ known ∈ endpoints, known.locationPath ≠ endpoint.locationPath) (depth : Nat) :
    Serves settings (endpoints ++ [endpoint])
      (locations ++ [⟨endpoint.locationPath, depth, endpoint.locationEntries settings⟩]) := by
  have unlisted : endpoint.locationPath ∉ endpoints.map Endpoint.locationPath := by
    intro listed
    obtain ⟨known, member, same⟩ := List.mem_map.mp listed
    exact new known member same
  refine ⟨?_, ?_, ?_⟩
  · rw [List.map_append, List.map_append, List.map_singleton, List.map_singleton,
      eraseDups_concat, if_neg unlisted, serves.paths]
  · intro location atLocation other atOther same
    rw [List.mem_append, List.mem_singleton] at atLocation atOther
    rcases atLocation with old | rfl <;> rcases atOther with known | rfl
    · exact serves.entries location old other known same
    · obtain ⟨known, member, path⟩ := serves.mem_paths old
      exact absurd (path.trans same.symm) (new known member)
    · exact absurd same (new other known)
    · rfl
  · intro first atFirst second atSecond same
    rw [List.mem_append, List.mem_singleton] at atFirst atSecond
    rcases atFirst with known | rfl <;> rcases atSecond with known' | rfl
    · exact serves.modes first known second known' same
    · exact absurd same (new first known)
    · exact absurd same.symm (new second known')
    · rfl

theorem concat_repeated (serves : Serves settings endpoints locations) {known : Endpoint α}
    (member : known ∈ endpoints) (path : known.locationPath = endpoint.locationPath)
    (knownMode : known.mode = .process) (mode : endpoint.mode = .process) :
    Serves settings (endpoints ++ [endpoint]) locations := by
  have listed : endpoint.locationPath ∈ endpoints.map Endpoint.locationPath :=
    List.mem_map.mpr ⟨known, member, path⟩
  refine ⟨?_, ?_, ?_⟩
  · rw [List.map_append, List.map_singleton, eraseDups_concat, if_pos listed, serves.paths]
  · intro location atLocation other atOther same
    rw [List.mem_append, List.mem_singleton] at atOther
    rcases atOther with earlier | rfl
    · exact serves.entries location atLocation other earlier same
    · rw [serves.entries location atLocation known member (path.trans same)]
      exact Endpoint.locationEntries_of_process settings knownMode mode
  · intro first atFirst second atSecond same
    rw [List.mem_append, List.mem_singleton] at atFirst atSecond
    rcases atFirst with earlier | rfl <;> rcases atSecond with earlier' | rfl
    · exact serves.modes first earlier second earlier' same
    · rw [serves.modes first earlier known member (same.trans path.symm), knownMode, mode]
    · rw [← serves.modes known member second earlier' (path.trans same), knownMode, mode]
    · rfl

end Serves

/-! ### What the walk keeps -/

namespace Walk

/-- The walk has served the endpoints that it met: behind the header of the server block stand
their locations, and the mode of each path is remembered. -/
structure Served (settings : Settings) (header : Nginx.Clause) (seen : List (Endpoint α))
    (walk : Walk α) : Prop where
  server : ∃ locations, Serves settings seen locations ∧ walk.server =
    { header with entries := header.entries ++ locations.map Nginx.Location.toEntry }
  known : ∀ path mode, walk.emitted.lookup path = some mode →
    ∃ endpoint ∈ seen, endpoint.locationPath = path ∧ endpoint.mode = mode
  unknown : ∀ path, walk.emitted.lookup path = none →
    ∀ endpoint ∈ seen, endpoint.locationPath ≠ path

theorem addLocation_server (settings : Settings) (endpoint : Endpoint α) (walk : Walk α) :
    (walk.addLocation settings endpoint).server =
      walk.server.add (Nginx.Location.toEntry ⟨endpoint.locationPath, walk.server.depth + 1,
        endpoint.locationEntries settings⟩) := by
  simp only [addLocation, Nginx.Clause.location, Nginx.Location.foldl_directive,
    List.nil_append, locationDirectives_entries]
  rfl

theorem lookup_note {seen : List (Endpoint α)} (walk : Walk α) (host : Host α)
    (endpoint : Endpoint α)
    (known : ∀ path mode, walk.emitted.lookup path = some mode →
      ∃ endpoint ∈ seen, endpoint.locationPath = path ∧ endpoint.mode = mode)
    (unknown : ∀ path, walk.emitted.lookup path = none →
      ∀ endpoint ∈ seen, endpoint.locationPath ≠ path) :
    (∀ path mode, (walk.note host endpoint).emitted.lookup path = some mode →
      ∃ other ∈ seen ++ [endpoint], other.locationPath = path ∧ other.mode = mode) ∧
    (∀ path, (walk.note host endpoint).emitted.lookup path = none →
      ∀ other ∈ seen ++ [endpoint], other.locationPath ≠ path) := by
  have atEnd : endpoint ∈ seen ++ [endpoint] := by simp
  constructor
  · intro path mode found
    rw [note_emitted, List.lookup_cons] at found
    by_cases same : path = locationPath endpoint.pathname
    · subst same
      simp only [beq_self_eq_true, Option.some.injEq] at found
      exact ⟨endpoint, atEnd, rfl, found⟩
    · rw [beq_eq_false_iff_ne.mpr same] at found
      obtain ⟨other, member, facts⟩ := known path mode found
      exact ⟨other, List.mem_append_left _ member, facts⟩
  · intro path missing other member same
    rw [note_emitted, List.lookup_cons] at missing
    by_cases own : path = locationPath endpoint.pathname
    · subst own
      simp at missing
    · rw [beq_eq_false_iff_ne.mpr own] at missing
      rw [List.mem_append, List.mem_singleton] at member
      rcases member with earlier | rfl
      · exact unknown path missing other earlier same
      · exact own same.symm

theorem Served.visitEndpoint {settings : Settings} {host : Host α} {header : Nginx.Clause}
    {seen : List (Endpoint α)} {walk after : Walk α} {endpoint : Endpoint α}
    (served : walk.Served settings header seen)
    (visited : walk.visitEndpoint settings host endpoint = .ok after) :
    after.Served settings header (seen ++ [endpoint]) := by
  obtain ⟨⟨locations, serves, server⟩, known, unknown⟩ := served
  obtain ⟨new, rfl⟩ | ⟨repeated, mode, rfl⟩ := visitEndpoint_ok visited
  · have remembered := lookup_note (walk.addLocation settings endpoint) host endpoint
      known unknown
    refine ⟨⟨_, serves.concat_new (unknown _ new) (walk.server.depth + 1), ?_⟩,
      remembered.1, remembered.2⟩
    rw [note_server, addLocation_server, server]
    simp [Nginx.Clause.add]
  · obtain ⟨earlier, member, path, process⟩ := known _ _ repeated
    have remembered := lookup_note walk host endpoint known unknown
    refine ⟨⟨locations, serves.concat_repeated member path process mode, ?_⟩,
      remembered.1, remembered.2⟩
    rw [note_server, server]

theorem Served.visits {settings : Settings} {host : Host α} {header : Nginx.Clause}
    {walk after : Walk α} {visits : List (Visit α)} (fresh : walk.emitted = [])
    (bare : walk.server = header)
    (visited : visits.foldlM (Walk.visit settings host) walk = .ok after) :
    after.Served settings header ((visits.filterMap Visit.met?).map Prod.snd) := by
  refine foldlM_ok_induction
    (fun seen (state : Walk α) =>
      state.Served settings header ((seen.filterMap Visit.met?).map Prod.snd)) ?_ ?_ visited
  · refine ⟨⟨[], ⟨rfl, ?_, ?_⟩, ?_⟩, ?_, ?_⟩
    · intro location impossible
      cases impossible
    · intro first impossible
      cases impossible
    · rw [bare, List.map_nil, List.append_nil]
    · intro path mode found
      rw [fresh] at found
      cases found
    · intro path _ endpoint impossible
      cases impossible
  · intro seen visit before next holds stepped
    rw [List.filterMap_append, List.map_append]
    cases visit with
    | route depth pathname =>
        simp only [Walk.visit] at stepped
        split at stepped
        · cases stepped
        · cases stepped
          have none : [Visit.route (α := α) depth pathname].filterMap Visit.met? = [] := rfl
          rw [none, List.map_nil, List.append_nil]
          exact holds
    | endpoint scope declared =>
        -- The middleware in force is no part of the invariant.
        have under : (before.under scope).Served settings header
            ((seen.filterMap Visit.met?).map Prod.snd) :=
          ⟨holds.server, holds.known, holds.unknown⟩
        exact under.visitEndpoint stepped

end Walk

/-! ### One server block for each host -/

structure ServerBlock (settings : Settings) (host : Host α) (server : Nginx.Clause) : Prop where
  listen : Nginx.directiveValues "listen" server.entries = [toString host.options.port.toNat]
  hostname : Nginx.directiveValues "server_name" server.entries = [host.hostname]
  serves : Serves settings host.endpoints server.locations
  distinct : (server.locations.map Nginx.Location.path).Nodup

namespace Compilation

theorem serverDirectives_eq (settings : Settings) (host : Host α) (depth : Nat) :
    serverDirectives settings host ⟨"server", depth, []⟩ = ⟨"server", depth, ([
      ("listen", toString host.options.port.toNat),
      ("server_name", host.hostname),
      ("client_max_body_size", settings.clientMaxBodySize)] ++
      (host.options.root.map fun root => ("root", root)).toList).map
        fun (name, value) => .directive name value⟩ := by
  unfold serverDirectives
  rw [Nginx.Clause.foldl_directive]
  rfl

theorem directiveValues_toEntry (name : String) (locations : List Nginx.Location) :
    Nginx.directiveValues name (locations.map Nginx.Location.toEntry) = [] := by
  rw [Nginx.directiveValues, List.filterMap_map, List.filterMap_eq_nil_iff]
  intro location _
  rfl

theorem serverBlock_of_visits {settings : Settings} {host : Host α} {progress : Progress α}
    {walk : Walk α}
    (visited : host.visits.foldlM (Walk.visit settings host) (progress.walk settings host) =
      .ok walk) :
    ServerBlock settings host walk.server ∧ walk.server.name = "server" := by
  have served := Walk.Served.visits rfl rfl visited
  rw [Host.visits_met, List.map_map] at served
  change Walk.Served settings _ (host.positions.map Position.endpoint) walk at served
  rw [Host.positions_endpoints] at served
  obtain ⟨locations, serves, server⟩ := served.server
  have header : (progress.walk settings host).server =
      serverDirectives settings host ⟨"server", progress.http.depth + 1, []⟩ := rfl
  rw [header, serverDirectives_eq] at server
  have listed : walk.server.locations = locations := by
    rw [server, Nginx.Clause.locations_toEntry]
    unfold Nginx.Clause.locations
    cases host.options.root <;> rfl
  refine ⟨⟨?_, ?_, ?_, ?_⟩, ?_⟩
  · rw [server, Nginx.directiveValues, List.filterMap_append]
    change _ ++ Nginx.directiveValues "listen" (locations.map Nginx.Location.toEntry) = _
    rw [directiveValues_toEntry]
    cases host.options.root <;> rfl
  · rw [server, Nginx.directiveValues, List.filterMap_append]
    change _ ++ Nginx.directiveValues "server_name" (locations.map Nginx.Location.toEntry) = _
    rw [directiveValues_toEntry]
    cases host.options.root <;> rfl
  · rw [listed]
    exact serves
  · rw [listed, serves.paths]
    exact nodup_eraseDups _
  · rw [server]

theorem hosts_serverBlocks {settings : Settings} {hosts : List (Host α)}
    {progress after : Progress α}
    (visited : hosts.foldlM (Progress.visitHost settings) progress = .ok after) :
    ∃ servers, after.http = { progress.http with
        entries := progress.http.entries ++ servers.map Nginx.Clause.toEntry } ∧
      List.Forall₂ (ServerBlock settings) hosts servers ∧
      ∀ server ∈ servers, server.name = "server" := by
  refine foldlM_ok_induction
    (fun seen (state : Progress α) => ∃ servers, state.http = { progress.http with
        entries := progress.http.entries ++ servers.map Nginx.Clause.toEntry } ∧
      List.Forall₂ (ServerBlock settings) seen servers ∧
      ∀ server ∈ servers, server.name = "server") ?_ ?_ visited
  · refine ⟨[], ?_, List.Forall₂.nil, ?_⟩
    · rw [List.map_nil, List.append_nil]
    · intro server impossible
      cases impossible
  · rintro seen host before next ⟨servers, http, blocks, named⟩ stepped
    obtain ⟨walk, ran, added, _⟩ := Progress.visitHost_ok stepped
    obtain ⟨block, name⟩ := serverBlock_of_visits ran
    refine ⟨servers ++ [walk.server], ?_, ?_, ?_⟩
    · rw [added, http]
      simp [Nginx.Clause.add]
    · exact List.rel_append blocks (.cons block .nil)
    · intro server member
      rw [List.mem_append, List.mem_singleton] at member
      rcases member with earlier | rfl
      · exact named server earlier
      · exact name

theorem clauses_toEntry (name : String) {clauses : List Nginx.Clause}
    (named : ∀ clause ∈ clauses, clause.name = name) (parent : Nginx.Clause) :
    ({ parent with entries := parent.entries ++ clauses.map Nginx.Clause.toEntry } :
      Nginx.Clause).clauses name = parent.clauses name ++ clauses := by
  unfold Nginx.Clause.clauses
  rw [List.filterMap_append, List.filterMap_map]
  congr 1
  induction clauses with
  | nil => rfl
  | cons first rest ih =>
      have own : first.name = name := named first List.mem_cons_self
      rw [List.filterMap_cons_some (b := first)]
      · rw [ih fun clause member => named clause (List.mem_cons_of_mem _ member)]
      · subst own
        simp [Nginx.Clause.toEntry]

theorem globalDirectives_clauses (boilerplate : Boilerplate) :
    (globalDirectives boilerplate .root).clauses "http" = [] := by
  unfold globalDirectives
  cases boilerplate.user <;> rfl

theorem start_http (settings : Settings) :
    ∃ directives : List (String × String), (Progress.start (α := α) settings).http =
      ⟨"http", (globalDirectives settings.boilerplate .root).depth + 1,
        directives.map fun (name, value) => .directive name value⟩ := by
  unfold Progress.start httpDirectives
  rw [Nginx.Clause.foldl_directive]
  exact ⟨_, rfl⟩

theorem start_name (settings : Settings) :
    (Progress.start (α := α) settings).http.name = "http" := by
  obtain ⟨directives, http⟩ := start_http (α := α) settings
  rw [http]

theorem start_clauses (settings : Settings) :
    (Progress.start (α := α) settings).http.clauses "server" = [] := by
  obtain ⟨directives, http⟩ := start_http (α := α) settings
  rw [http, Nginx.Clause.clauses, List.filterMap_map, List.filterMap_eq_nil_iff]
  intro directive _
  rfl

theorem build_serverBlocks {settings : Settings} {backend : Backend α} {app : Application α}
    {compilation : Compilation α} (compiled : build settings backend app = .ok compilation) :
    ∃ http, compilation.config.clauses "http" = [http] ∧
      List.Forall₂ (ServerBlock settings) app.hosts (http.clauses "server") := by
  obtain ⟨progress, ran, _, config, _⟩ := build_ok compiled
  obtain ⟨servers, http, blocks, named⟩ := hosts_serverBlocks ran
  have name : progress.http.name = (Progress.start (α := α) settings).http.name := by
    rw [http]
  rw [start_name] at name
  refine ⟨progress.http, ?_, ?_⟩
  · rw [config, Nginx.Clause.add, ← List.map_singleton, clauses_toEntry "http"]
    · rw [globalDirectives_clauses, List.nil_append]
    · intro clause member
      rw [List.mem_singleton.mp member, name]
  · rw [http, clauses_toEntry "server" named, start_clauses, List.nil_append]
    exact blocks

/-- The `http` block of a compiled configuration holds one server block for each host, in the
order of the hosts.  The locations of a server block are, in order, the different location paths
of the endpoints of its host where they first appear.  What a location holds follows from the
mode of its endpoints, which is the same for all endpoints with its path. -/
theorem server_blocks_serve_hosts {settings : Settings} {backend : Backend α}
    {app : Application α} {compilation : Compilation α}
    (compiled : build settings backend app = .ok compilation) :
    ∃ http, compilation.config.clauses "http" = [http] ∧
      List.Forall₂ (fun host server =>
        Nginx.directiveValues "server_name" server.entries = [host.hostname] ∧
        Nginx.directiveValues "listen" server.entries = [toString host.options.port.toNat] ∧
        server.locations.map Nginx.Location.path =
          (host.endpoints.map fun endpoint => locationPath endpoint.pathname).eraseDups ∧
        (server.locations.map Nginx.Location.path).Nodup ∧
        (∀ location ∈ server.locations, ∀ endpoint ∈ host.endpoints,
          locationPath endpoint.pathname = location.path →
            location.entries = endpoint.locationEntries settings) ∧
        ∀ first ∈ host.endpoints, ∀ second ∈ host.endpoints,
          locationPath first.pathname = locationPath second.pathname → first.mode = second.mode)
        app.hosts (http.clauses "server") := by
  obtain ⟨http, only, blocks⟩ := build_serverBlocks compiled
  refine ⟨http, only, blocks.imp ?_⟩
  intro host server block
  exact ⟨block.hostname, block.listen, block.serves.paths, block.distinct,
    block.serves.entries, block.serves.modes⟩

def shared : Application Nat := {
  hosts := [{
    hostname := "a.test"
    options := {}
    base := [
      .endpoint ⟨"/assets", .single .static, .file "public"⟩,
      .endpoint ⟨"*", .every, .process 1⟩]
    routes := [⟨"/api", [
      .endpoint ⟨"/api*", .single .post, .process 2⟩, .endpoint ⟨"/api", .every, .process 3⟩,
      .endpoint ⟨"/about", .single .get, .file "pages/about.html"⟩]⟩] }] }

theorem server_block_shared :
    ∃ compilation http server, build {} ⟨fun _ => .ok ()⟩ shared = .ok compilation ∧
      compilation.config.clauses "http" = [http] ∧ http.clauses "server" = [server] ∧
      server.locations.map Nginx.Location.path = ["/assets", "/", "/api", "/about"] := by
  have succeeds : (build {} ⟨fun _ => .ok ()⟩ shared).isOk = true := by decide +kernel
  obtain ⟨compilation, compiled⟩ := (isOk_iff_exists _).mp succeeds
  obtain ⟨http, only, blocks⟩ := server_blocks_serve_hosts compiled
  obtain ⟨server, rest, block, none, servers⟩ := List.forall₂_cons_left_iff.mp blocks
  rw [List.forall₂_nil_left_iff.mp none] at servers
  refine ⟨compilation, http, server, compiled, only, servers, ?_⟩
  rw [block.2.2.1]
  decide +kernel

end Compilation

end VirtualHosts
