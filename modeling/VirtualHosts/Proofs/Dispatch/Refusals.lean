/-
Registrations that cannot be served together.

A table is refused for the patterns of its registrations.  The chains are carried along, from
the registrations into the routes and out again, and nothing on the way looks at them.
-/

import VirtualHosts.Dispatch
import VirtualHosts.Proofs.Sequence

namespace VirtualHosts.Dispatch

variable {β γ : Type}

/-! ### Routes with other values -/

def ExactRoute.map (f : β → γ) (route : ExactRoute β) : ExactRoute γ :=
  ⟨route.segments, f route.value⟩

theorem descend_map (f : β → γ) (fuel : Nat) (routes : List (List Branch × β)) :
    descend fuel (routes.map fun (remaining, route) => (remaining, f route)) =
      (descend fuel routes).map f := by
  induction fuel generalizing routes with
  | zero =>
      rw [descend, descend, List.head?_map, Option.map_map, Option.map_map]
      rfl
  | succ fuel ih =>
      have heads : (routes.map fun (remaining, route) => (remaining, f route)).filterMap
          (·.1.head?) = routes.filterMap (·.1.head?) := by
        rw [List.filterMap_map]
        rfl
      rw [descend, descend, heads]
      cases followed? (routes.filterMap (·.1.head?)) with
      | none =>
          dsimp only
          rw [List.head?_map, Option.map_map, Option.map_map]
          rfl
      | some branch =>
          dsimp only
          rw [← ih, List.filterMap_map, List.map_filterMap]
          congr 2
          funext route
          obtain ⟨remaining, route⟩ := route
          cases remaining with
          | nil => rfl
          | cons first others =>
              by_cases same : first = branch
              · simp [same]
              · simp [same]

theorem reported?_map (f : β → γ) (routes : List (ExactRoute β)) :
    reported? (routes.map (.map f)) = (reported? routes).map (.map f) := by
  unfold reported?
  rw [← descend_map, List.map_map, List.map_map, List.map_map]
  rfl

namespace RouteSet

theorem contenders_map (f : β → γ) (routes : RouteSet β) (segments : List Segment) :
    contenders (routes.map (.map f)) segments = (routes.contenders segments).map (.map f) := by
  have places (place : List Segment) : (routes.map (.map f)).filter (ExactRoute.contends place) =
      (routes.filter (ExactRoute.contends place)).map (.map f) := by
    rw [List.filter_map]
    rfl
  unfold contenders
  dsimp only
  simp only [places]
  generalize (List.range segments.length).map (fun depth => segments.take (depth + 1)) = all
  induction all with
  | nil => rfl
  | cons first rest ih =>
      rw [List.map_cons, List.map_cons, List.find?_cons, List.find?_cons, List.isEmpty_map]
      cases (routes.filter (ExactRoute.contends first)).isEmpty with
      | true => exact ih
      | false => rfl

theorem insert_map (f : β → γ) (routes : RouteSet β) (text : String) (value : β) :
    insert (routes.map (.map f)) text (f value) =
      (routes.insert text value).map (List.map (.map f)) := by
  unfold insert
  cases atoms mostCaptures .outside [] (pairBraces text.toList) with
  | error failure => rfl
  | ok found =>
      dsimp only
      generalize readSegments (splitAtoms found) = reading
      obtain ⟨segments, misplaced⟩ := reading
      have alike : List.find? (ExactRoute.sameShape segments ·.segments) (routes.map (.map f)) =
          (List.find? (ExactRoute.sameShape segments ·.segments) routes).map
            (ExactRoute.map f) := by
        rw [List.find?_map]
        rfl
      dsimp only
      rw [contenders_map, reported?_map, alike]
      cases reported? (routes.contenders segments) with
      | some earlier => rfl
      | none =>
          cases misplaced with
          | some failure => rfl
          | none =>
              cases List.find? (ExactRoute.sameShape segments ·.segments) routes with
              | some earlier => rfl
              | none => simp [Except.map, ExactRoute.map]

end RouteSet

theorem gather_map {κ : Type} [DecidableEq κ] (f : β → γ) (pairs : List (κ × β)) :
    gather (pairs.map fun (key, value) => (key, f value)) =
      (gather pairs).map fun (key, values) => (key, values.map f) := by
  have keys : (pairs.map fun (key, value) => (key, f value)).map Prod.fst =
      pairs.map Prod.fst := by
    rw [List.map_map]
    rfl
  rw [gather_eq, gather_eq, keys, List.map_map]
  refine List.map_congr_left fun key _ => ?_
  rw [List.filter_map, List.map_map]
  dsimp only [Function.comp_apply]
  rw [List.map_map]
  rfl

end VirtualHosts.Dispatch

/-! ### Registrations with other chains -/

namespace VirtualHosts

variable {α β : Type}

/-- The same registration with another chain. -/
def Registration.withChain (chain : List α → List β) (registration : Registration α) :
    Registration β where
  hostname := registration.hostname
  port := registration.port
  pathname := registration.pathname
  verbs := registration.verbs
  chain := chain registration.chain

namespace Dispatch

def Answer.withChain (chain : List α → List β) (answer : Answer α) : Answer β :=
  ⟨answer.verbs, chain answer.chain⟩

namespace HostTable

theorem groups_withChain (chain : List α → List β) (registrations : List (Registration α)) :
    groups (registrations.map (.withChain chain)) =
      (groups registrations).map fun (pattern, group) =>
        (pattern, group.map (.withChain chain)) := by
  unfold groups
  rw [← gather_map, List.flatMap_map, List.map_flatMap]
  simp only [List.map_map]
  rfl

theorem insertExact_withChain (chain : List α → List β) (hostname : String) (port : UInt16)
    (exact : RouteSet (Group α)) (entry : Pattern × Group α) :
    insertExact hostname port (exact.map (.map (List.map (.withChain chain))))
        (entry.1, entry.2.map (.withChain chain)) =
      (insertExact hostname port exact entry).map
        (List.map (.map (List.map (.withChain chain)))) := by
  obtain ⟨pattern, group⟩ := entry
  cases pattern with
  | below beginning => rfl
  | exact text =>
      rw [insertExact, insertExact, RouteSet.insert_map]
      cases exact.insert text group <;> rfl

/-- Whether the registrations of a host can be told apart, and which of them cannot, is the same
with other chains. -/
theorem build_withChain (chain : List α → List β) (hostname : String) (port : UInt16)
    (registrations : List (Registration α)) :
    (build hostname port (registrations.map (.withChain chain))).map (fun _ => ()) =
      (build hostname port registrations).map fun _ => () := by
  have inserted := foldlM_map_of_step (insertExact_withChain chain hostname port)
    (groups registrations) []
  rw [← groups_withChain, List.map_nil] at inserted
  unfold build
  dsimp only
  rw [inserted, except_map_map, except_map_map, except_map_map]
  rfl

end HostTable

namespace Table

theorem byHost_withChain (chain : List α → List β) (registrations : List (Registration α)) :
    byHost (registrations.map (.withChain chain)) =
      (byHost registrations).map fun (host, registered) =>
        (host, registered.map (.withChain chain)) := by
  unfold byHost
  rw [← gather_map, List.map_map, List.map_map]
  rfl

theorem build_withChain (chain : List α → List β) (registrations : List (Registration α)) :
    (build (registrations.map (.withChain chain))).map (fun _ => ()) =
      (build registrations).map fun _ => () := by
  unfold build
  rw [byHost_withChain, List.mapM_map, except_map_map, except_map_map]
  refine mapM_fails_alike ?_ (byHost registrations)
  rintro ⟨⟨hostname, port⟩, registered⟩
  rw [Function.comp_apply, buildHost, buildHost, except_map_map, except_map_map]
  exact HostTable.build_withChain chain hostname port registered

end Table

/-- What is refused, and with which report, hangs on the names, ports and pathnames of the
registrations alone. -/
theorem check_withChain (chain : List α → List β) (registrations : List (Registration α)) :
    backend.check (registrations.map (.withChain chain)) = backend.check registrations :=
  Table.build_withChain chain registrations

end Dispatch

end VirtualHosts
