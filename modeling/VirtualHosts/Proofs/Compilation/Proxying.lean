/-
Requests that the web server passes on.

Every registration has a location in the server block of its host.  The location takes in
all paths that the process answers for the registration, unless its pathname is one of
those whose location is too narrow.
-/

import VirtualHosts.Dispatch
import VirtualHosts.Proofs.Compilation.Chains
import VirtualHosts.Proofs.Compilation.ServerBlocks
import VirtualHosts.Proofs.Dispatch.Locations

namespace VirtualHosts.Compilation

variable {α : Type}

theorem endpoint_of_registration {hosts : List (Host α)} {registration : Registration α}
    (registered : registration ∈ hosts.flatMap Host.registrations) :
    ∃ host ∈ hosts, ∃ endpoint ∈ host.endpoints, endpoint.mode = .process ∧
      registration.hostname = host.hostname ∧ registration.port = host.options.port ∧
        registration.pathname = endpoint.pathname := by
  obtain ⟨host, declared, own⟩ := List.mem_flatMap.mp registered
  obtain ⟨position, placed, made⟩ := List.mem_filterMap.mp own
  have listed : position.endpoint ∈ host.endpoints := by
    rw [← host.positions_endpoints]
    exact List.mem_map_of_mem placed
  refine ⟨host, declared, position.endpoint, listed, ?_⟩
  unfold Walk.registration? at made
  obtain ⟨handler, given, rfl⟩ := Option.map_eq_some_iff.mp made
  refine ⟨?_, rfl, rfl, rfl⟩
  by_contra other
  have absent := (Walk.handler?_eq_none_iff position.endpoint).mpr other
  rw [given] at absent
  cases absent

theorem exists_of_forall₂ {β γ : Type} {related : β → γ → Prop} {items : List β}
    {others : List γ} (pairs : List.Forall₂ related items others) {item : β}
    (member : item ∈ items) : ∃ other ∈ others, related item other := by
  induction pairs with
  | nil => cases member
  | cons first rest ih =>
      rcases List.mem_cons.mp member with rfl | later
      · exact ⟨_, List.mem_cons_self, first⟩
      · obtain ⟨other, given, found⟩ := ih later
        exact ⟨other, List.mem_cons_of_mem _ given, found⟩

theorem proxied_location {settings : Settings} {host : Host α} {server : Nginx.Clause}
    (block : ServerBlock settings host server) {endpoint : Endpoint α}
    (listed : endpoint ∈ host.endpoints) (process : endpoint.mode = .process) :
    ∃ location ∈ server.locations, location.path = locationPath endpoint.pathname ∧
      Nginx.directiveValues "proxy_pass" location.entries = [settings.proxy.url] := by
  have path : locationPath endpoint.pathname ∈ server.locations.map Nginx.Location.path := by
    rw [block.serves.paths, List.mem_eraseDups]
    exact List.mem_map_of_mem listed
  obtain ⟨location, held, same⟩ := List.mem_map.mp path
  refine ⟨location, held, same, ?_⟩
  rw [block.serves.entries location held endpoint listed same.symm,
    Endpoint.locationEntries, process]
  rfl

/-- Every registration has a location in the server block of its host that passes requests on
to the process.  All paths that begin with a slash and are answered for the registration begin
as the location, if and only if the pathname is not one whose location withholds a path. -/
theorem answered_paths_reach_process {settings : Settings} {backend : Backend α}
    {app : Application α} {compilation : Compilation α}
    (compiled : build settings backend app = .ok compilation) :
    ∃ http, compilation.config.clauses "http" = [http] ∧
      ∀ registration ∈ compilation.backend.getD [],
        (∃ server ∈ http.clauses "server", ∃ location ∈ server.locations,
          Nginx.directiveValues "server_name" server.entries = [registration.hostname] ∧
          Nginx.directiveValues "listen" server.entries = [toString registration.port.toNat] ∧
          location.path = locationPath registration.pathname ∧
          Nginx.directiveValues "proxy_pass" location.entries = [settings.proxy.url]) ∧
        ((∀ path, Text.startsWith path "/" = true →
          (∃ pattern ∈ Dispatch.Pattern.ofPathname registration.pathname,
            pattern.Answers path) →
          Text.startsWith path (locationPath registration.pathname) = true) ↔
            Dispatch.withheld registration.pathname = false) := by
  obtain ⟨http, only, blocks⟩ := build_serverBlocks compiled
  refine ⟨http, only, ?_⟩
  intro registration registered
  constructor
  · rw [build_registrations compiled] at registered
    obtain ⟨host, declared, endpoint, listed, process, hostname, port, pathname⟩ :=
      endpoint_of_registration registered
    obtain ⟨server, given, block⟩ := exists_of_forall₂ blocks declared
    obtain ⟨location, held, path, passes⟩ := proxied_location block listed process
    rw [hostname, port, pathname]
    exact ⟨server, given, location, held, block.hostname, block.listen, path, passes⟩
  · constructor
    · intro proxied
      by_contra kept
      rw [Bool.not_eq_false] at kept
      obtain ⟨path, slash, answered, outside⟩ := Dispatch.exists_of_withheld kept
      have begins := proxied path ((Text.startsWith_iff path "/").mpr slash) answered
      rw [Dispatch.startsWith_location] at begins
      exact outside begins
    · intro kept path slash answered
      obtain ⟨pattern, member, answers⟩ := answered
      rw [Text.startsWith_iff] at slash
      rw [Dispatch.startsWith_location]
      exact Dispatch.starts_of_not_withheld kept slash member answers

def users : Application Nat := {
  hosts := [{
    hostname := "a.test"
    options := {}
    base := [
      .endpoint ⟨"/users", .every, .process 1⟩, .endpoint ⟨"/users/:id", .every, .process 2⟩]
    routes := [] }] }

theorem users_reach_process :
    ∃ compilation, build {} Dispatch.backend users = .ok compilation ∧
      ∃ registration ∈ compilation.backend.getD [], registration.pathname = "/users" ∧
        ∀ path, Text.startsWith path "/" = true →
          (∃ pattern ∈ Dispatch.Pattern.ofPathname registration.pathname,
            pattern.Answers path) →
          Text.startsWith path (locationPath registration.pathname) = true := by
  have succeeds : (build {} Dispatch.backend users).isOk = true := by decide +kernel
  obtain ⟨compilation, compiled⟩ := (isOk_iff_exists _).mp succeeds
  obtain ⟨http, only, reached⟩ := answered_paths_reach_process compiled
  have registered : (⟨"a.test", 80, "/users", .every, [1]⟩ : Registration Nat) ∈
      compilation.backend.getD [] := by
    rw [build_registrations compiled]
    decide +kernel
  refine ⟨compilation, compiled, _, registered, rfl, ?_⟩
  exact (reached _ registered).2.mpr (by decide +kernel)

theorem user_withheld_from_process :
    ∃ compilation, build {} Dispatch.backend users = .ok compilation ∧
      ∃ registration ∈ compilation.backend.getD [],
        (∃ pattern ∈ Dispatch.Pattern.ofPathname registration.pathname,
          pattern.Answers "/users/7") ∧
        Text.startsWith "/users/7" "/" = true ∧
        Text.startsWith "/users/7" (locationPath registration.pathname) = false := by
  have succeeds : (build {} Dispatch.backend users).isOk = true := by decide +kernel
  obtain ⟨compilation, compiled⟩ := (isOk_iff_exists _).mp succeeds
  have registered : (⟨"a.test", 80, "/users/:id", .every, [2]⟩ : Registration Nat) ∈
      compilation.backend.getD [] := by
    rw [build_registrations compiled]
    decide +kernel
  refine ⟨compilation, compiled, _, registered, ⟨.exact "/users/\x7bid\x7d", ?_, _, rfl, ?_⟩, ?_, ?_⟩
  all_goals decide +kernel

end VirtualHosts.Compilation
