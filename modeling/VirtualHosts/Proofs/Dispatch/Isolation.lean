/-
Hosts and ports keep to themselves.

What a request is answered with hangs on the registrations selected for it alone.  Two
tables that agree on the registrations of a host and a port agree on all its requests,
whatever else is registered in them, and in whatever order.
-/

import VirtualHosts.Proofs.Dispatch.Groups
import VirtualHosts.Proofs.Dispatch.Selection

namespace VirtualHosts.Dispatch

variable {α : Type}

namespace HostTable

/-! ### One table for the same registrations -/

/-- The host and the port are written in the report of a failure only. -/
theorem insertExact_ok {hostname other : String} {port otherPort : UInt16}
    {exact result : RouteSet (Group α)} {entry : Pattern × Group α}
    (inserted : insertExact hostname port exact entry = .ok result) :
    insertExact other otherPort exact entry = .ok result := by
  obtain ⟨pattern, group⟩ := entry
  cases pattern with
  | below beginning => exact inserted
  | exact text =>
      rw [insertExact, mapError_eq_ok_iff] at inserted ⊢
      exact inserted

theorem build_unique {hostname other : String} {port otherPort : UInt16}
    {registrations : List (Registration α)} {table again : HostTable α}
    (built : build hostname port registrations = .ok table)
    (rebuilt : build other otherPort registrations = .ok again) : table = again := by
  obtain ⟨inserted, sorted⟩ := build_eq_ok built
  obtain ⟨insertedAgain, sortedAgain⟩ := build_eq_ok rebuilt
  have same : (groups registrations).foldlM (insertExact other otherPort) [] =
      .ok table.exact := by
    refine foldlM_ok_induction
      (fun seen exact => seen.foldlM (insertExact other otherPort) [] = .ok exact) rfl ?_ inserted
    intro seen entry before after reached stepped
    rw [foldlM_concat_of_ok reached]
    exact insertExact_ok stepped
  rw [insertedAgain] at same
  cases table
  cases again
  exact congr (congrArg HostTable.mk (Except.ok.inj same).symm) (sorted.trans sortedAgain.symm)

theorem build_nil (hostname : String) (port : UInt16) :
    build hostname port ([] : List (Registration α)) = .ok ⟨[], []⟩ := by
  simp [build, groups, gather, sortBelow, pure, Except.pure, Except.map]

theorem lookup_empty (method path : String) :
    (⟨[], []⟩ : HostTable α).lookup method path = .notFound := by
  have nothing : RouteSet.find? ([] : RouteSet (Group α)) path = none := by
    unfold RouteSet.find?
    simp [search]
  simp [lookup, nothing, belowOf]

end HostTable

namespace Table

/-- A lookup is one in the table that the selected registrations make by themselves. -/
theorem lookup_of_selected {registrations : List (Registration α)} {table : Table α}
    (built : build registrations = .ok table) (host : String) (port : Option UInt16) :
    ∃ declared served, HostTable.build (normalizeHost host) declared
        (selected registrations host port) = .ok served ∧
      ∀ method path, table.lookup host port method path = served.lookup method path := by
  have given := hostTable?_selected built host port
  unfold Table.lookup
  cases found : table.hostTable? host port with
  | none =>
      rw [found] at given
      dsimp only at given
      refine ⟨0, ⟨[], []⟩, ?_, ?_⟩
      · rw [given, HostTable.build_nil]
      · intro method path
        exact (HostTable.lookup_empty method path).symm
  | some served =>
      rw [found] at given
      obtain ⟨declared, hostBuilt⟩ := given
      exact ⟨declared, served, hostBuilt, fun _ _ => rfl⟩

theorem lookup_congr {left right : List (Registration α)} {leftTable rightTable : Table α}
    (leftBuilt : build left = .ok leftTable) (rightBuilt : build right = .ok rightTable)
    {leftHost rightHost : String} {leftPort rightPort : Option UInt16}
    (same : selected left leftHost leftPort = selected right rightHost rightPort)
    (method path : String) :
    leftTable.lookup leftHost leftPort method path =
      rightTable.lookup rightHost rightPort method path := by
  obtain ⟨leftDeclared, leftServed, leftMade, leftLookup⟩ :=
    lookup_of_selected leftBuilt leftHost leftPort
  obtain ⟨rightDeclared, rightServed, rightMade, rightLookup⟩ :=
    lookup_of_selected rightBuilt rightHost rightPort
  rw [same] at leftMade
  rw [leftLookup, rightLookup, HostTable.build_unique leftMade rightMade]

theorem lookup_of_selected_nil {registrations : List (Registration α)} {table : Table α}
    (built : build registrations = .ok table) {host : String} {port : Option UInt16}
    (nothing : selected registrations host port = []) (method path : String) :
    table.lookup host port method path = .notFound := by
  obtain ⟨declared, served, made, answers⟩ := lookup_of_selected built host port
  rw [nothing] at made
  rw [HostTable.build_nil] at made
  cases made
  rw [answers, HostTable.lookup_empty]

end Table

/-! ### What is selected -/

theorem selected_some (registrations : List (Registration α)) (host : String) (port : UInt16) :
    selected registrations host (some port) = registrations.filter fun registration =>
      normalizeHost registration.hostname = normalizeHost host ∧ registration.port = port := by
  unfold selected
  dsimp only
  rw [List.filter_filter]
  refine List.filter_congr fun registration _ => ?_
  rw [Bool.eq_iff_iff]
  simp [and_comm]

/-- Without a port the first registration of the host says which one is asked. -/
theorem selected_none (registrations : List (Registration α)) (host : String) :
    selected registrations host none =
      match registrations.find? (normalizeHost ·.hostname = normalizeHost host) with
      | none => []
      | some first => selected registrations host (some first.port) := by
  unfold selected
  dsimp only
  rw [Option.none_or, List.head?_filter]
  cases found : registrations.find? (normalizeHost ·.hostname = normalizeHost host) with
  | none => simp
  | some first => rfl

/-- Two tables with the same registrations of a host and a port, in the same order, answer every
request for them alike.  In every table a request without a port is answered as one for the port
of the first registration of its host, and one for a port that no registration of its host has is
not found. -/
theorem Table.lookup_isolated {left right : List (Registration α)}
    {leftTable rightTable : Table α} (leftBuilt : build left = .ok leftTable)
    (rightBuilt : build right = .ok rightTable) {hostname : String} {port : UInt16}
    (same : (left.filter fun registration =>
        normalizeHost registration.hostname = hostname ∧ registration.port = port) =
      right.filter fun registration =>
        normalizeHost registration.hostname = hostname ∧ registration.port = port) :
    (∀ leftHost rightHost, normalizeHost leftHost = hostname →
      normalizeHost rightHost = hostname → ∀ method path,
        leftTable.lookup leftHost (some port) method path =
          rightTable.lookup rightHost (some port) method path) ∧
    (∀ host method path, leftTable.lookup host none method path =
      match left.find? (normalizeHost ·.hostname = normalizeHost host) with
      | none => .notFound
      | some first => leftTable.lookup host (some first.port) method path) ∧
    ∀ host other, (∀ registration ∈ left,
      normalizeHost registration.hostname = normalizeHost host → registration.port ≠ other) →
        ∀ method path, leftTable.lookup host (some other) method path = .notFound := by
  refine ⟨?_, ?_, ?_⟩
  · rintro leftHost rightHost rfl sameHost method path
    refine lookup_congr leftBuilt rightBuilt ?_ method path
    rw [selected_some, selected_some, sameHost]
    exact same
  · intro host method path
    have chosen := selected_none left host
    cases found : left.find? (normalizeHost ·.hostname = normalizeHost host) with
    | none =>
        rw [found] at chosen
        exact lookup_of_selected_nil leftBuilt chosen method path
    | some first =>
        rw [found] at chosen
        exact lookup_congr leftBuilt leftBuilt chosen method path
  · intro host other elsewhere method path
    refine lookup_of_selected_nil leftBuilt ?_ method path
    rw [selected_some, List.filter_eq_nil_iff]
    intro registration member chosen
    obtain ⟨sameHost, samePort⟩ := of_decide_eq_true chosen
    exact elsewhere registration member sameHost samePort

def alone : List (Registration Nat) :=
  [⟨"Shop.test", 80, "/cart/:id", .every, [1]⟩, ⟨"shop.test", 80, "/cart", .single .post, [2]⟩]

def crowded : List (Registration Nat) :=
  [⟨"shop.test", 8080, "/cart/:id", .every, [10]⟩, ⟨"Shop.test", 80, "/cart/:id", .every, [1]⟩,
    ⟨"blog.test", 80, "*", .every, [11]⟩, ⟨"shop.test", 80, "/cart", .single .post, [2]⟩,
    ⟨"shop.test", 8080, "/cart", .every, [12]⟩]

theorem Table.lookup_isolated_crowded :
    ∃ aloneTable crowdedTable, build alone = .ok aloneTable ∧ build crowded = .ok crowdedTable ∧
      (alone.filter fun registration =>
          normalizeHost registration.hostname = "shop.test" ∧ registration.port = 80) =
        (crowded.filter fun registration =>
          normalizeHost registration.hostname = "shop.test" ∧ registration.port = 80) ∧
      (∀ method path, aloneTable.lookup "shop.test" (some 80) method path =
        crowdedTable.lookup "SHOP.test:80" (some 80) method path) ∧
      (∀ method path, crowdedTable.lookup "shop.test" none method path =
        crowdedTable.lookup "shop.test" (some 8080) method path) ∧
      ∀ method path, crowdedTable.lookup "blog.test" (some 81) method path = .notFound := by
  have aloneSucceeds : (build alone).isOk = true := by decide +kernel
  have crowdedSucceeds : (build crowded).isOk = true := by decide +kernel
  obtain ⟨aloneTable, aloneBuilt⟩ := (isOk_iff_exists _).mp aloneSucceeds
  obtain ⟨crowdedTable, crowdedBuilt⟩ := (isOk_iff_exists _).mp crowdedSucceeds
  have same : (crowded.filter fun registration =>
      normalizeHost registration.hostname = "shop.test" ∧ registration.port = 80) =
        (alone.filter fun registration =>
          normalizeHost registration.hostname = "shop.test" ∧ registration.port = 80) := by
    decide +kernel
  obtain ⟨answers, unnamed, elsewhere⟩ := lookup_isolated crowdedBuilt aloneBuilt same
  refine ⟨aloneTable, crowdedTable, aloneBuilt, crowdedBuilt, same.symm, ?_, ?_, ?_⟩
  · intro method path
    exact (answers "SHOP.test:80" "shop.test" (by decide +kernel) (by decide +kernel)
      method path).symm
  · intro method path
    have first : crowded.find? (normalizeHost ·.hostname = normalizeHost "shop.test") =
        some ⟨"shop.test", 8080, "/cart/:id", .every, [10]⟩ := by decide +kernel
    rw [unnamed, first]
  · exact elsewhere "blog.test" 81 (by decide +kernel)

end VirtualHosts.Dispatch
