/-
The registrations that a request is compared with.

A table keeps those of every host and port apart.  A request is given the table of the
registrations that a search through the whole list would select for it.
-/

import Mathlib.Data.List.Find
import VirtualHosts.Proofs.Sequence

namespace VirtualHosts.Dispatch

variable {α : Type}

/-- The registrations of the host of a request, on the port it names.  Without a port
it is that of the first registration of the host. -/
def selected (registrations : List (Registration α)) (host : String) (port : Option UInt16) :
    List (Registration α) :=
  let own := registrations.filter fun registration =>
    normalizeHost registration.hostname = normalizeHost host
  let asked := port.or (own.head?.map Registration.port)
  own.filter fun registration => some registration.port = asked

namespace Table

def keyOf (registration : Registration α) : String × UInt16 :=
  (normalizeHost registration.hostname, registration.port)

theorem byHost_eq (registrations : List (Registration α)) :
    byHost registrations = (registrations.map keyOf).eraseDups.map fun key =>
      (key, registrations.filter (keyOf · = key)) := by
  have keys : (registrations.map fun registration =>
      (keyOf registration, registration)).map Prod.fst = registrations.map keyOf := by
    rw [List.map_map]
    rfl
  have members (key : String × UInt16) : ((registrations.map fun registration =>
      (keyOf registration, registration)).filter (·.1 = key)).map Prod.snd =
        registrations.filter (keyOf · = key) := by
    rw [List.filter_map, List.map_map]
    simp only [Function.comp_def, List.map_id']
  have gathered := gather_eq (registrations.map fun registration =>
    (keyOf registration, registration))
  rw [keys] at gathered
  simp only [members] at gathered
  exact gathered

def asks (host : String) (port : Option UInt16) (key : String × UInt16) : Bool :=
  key.1 == normalizeHost host && port.all (· == key.2)

theorem asks_iff (host : String) (port : Option UInt16) (key : String × UInt16) :
    asks host port key = true ↔
      key.1 = normalizeHost host ∧ ∀ given, port = some given → given = key.2 := by
  cases port <;> simp [asks]

theorem hostTable?_eq (table : Table α) (host : String) (port : Option UInt16) :
    table.hostTable? host port =
      (table.hosts.find? fun entry => asks host port entry.1).map Prod.snd :=
  rfl

/-- A table with its port, under its hostname. -/
def underHostname (entry : (String × UInt16) × HostTable α) : String × (UInt16 × HostTable α) :=
  (entry.1.1, (entry.1.2, entry.2))

/-- The tables of each hostname, with their ports. -/
def byHostname (table : Table α) : List (String × List (UInt16 × HostTable α)) :=
  gather (table.hosts.map underHostname)

theorem filter_underHostname (table : Table α) (hostname : String) :
    ((table.hosts.map underHostname).filter (·.1 = hostname)).map Prod.snd =
      (table.hosts.filter fun entry => entry.1.1 = hostname).map fun entry =>
        (entry.1.2, entry.2) := by
  rw [List.filter_map, List.map_map]
  rfl

/-- A search by hostname and port at once ends where one does that takes the tables of the
hostname first, and of these the one on the port, or the first. -/
theorem hostTable?_eq_byHostname (table : Table α) (host : String) (port : Option UInt16) :
    table.hostTable? host port =
      (table.byHostname.lookup (normalizeHost host)).bind fun tables =>
        match port with
        | some given => (tables.find? (·.1 == given)).map Prod.snd
        | none => tables.head?.map Prod.snd := by
  rw [hostTable?_eq, byHostname]
  cases port with
  | none =>
      refine Eq.trans ?_ (bind_lookup_gather (·.head?.map Prod.snd) rfl _ _).symm
      rw [filter_underHostname, List.head?_map, List.head?_filter, Option.map_map]
      simp [asks, Function.comp_def, Bool.beq_eq_decide_eq]
  | some given =>
      refine Eq.trans ?_
        (bind_lookup_gather (fun tables => (tables.find? (·.1 == given)).map Prod.snd) rfl _ _).symm
      rw [filter_underHostname, List.find?_map, List.find?_filter, Option.map_map]
      simp [asks, Function.comp_def, Bool.beq_eq_decide_eq, eq_comm]

theorem buildHost_key {group : (String × UInt16) × List (Registration α)}
    {entry : (String × UInt16) × HostTable α} (built : buildHost group = .ok entry) :
    entry.1 = group.1 ∧ HostTable.build group.1.1 group.1.2 group.2 = .ok entry.2 := by
  unfold buildHost at built
  cases made : HostTable.build group.1.1 group.1.2 group.2 with
  | error failure =>
      rw [made] at built
      cases built
  | ok table =>
      rw [made] at built
      cases built
      exact ⟨rfl, rfl⟩

theorem selected_eq_nil {registrations : List (Registration α)} {host : String}
    {port : Option UInt16} (absent : registrations.find? (asks host port <| keyOf ·) = none) :
    selected registrations host port = [] := by
  unfold selected
  dsimp only
  rw [List.filter_eq_nil_iff]
  intro registration member onPort
  obtain ⟨known, sameHost⟩ := List.mem_filter.mp member
  refine List.find?_eq_none.mp absent registration known ((asks_iff host port _).mpr ?_)
  refine ⟨of_decide_eq_true sameHost, ?_⟩
  rintro given rfl
  rw [Option.some_or] at onPort
  exact (Option.some.inj (of_decide_eq_true onPort)).symm

theorem selected_eq_filter {registrations : List (Registration α)} {host : String}
    {port : Option UInt16} {first : Registration α}
    (found : registrations.find? (asks host port <| keyOf ·) = some first) :
    selected registrations host port = registrations.filter (keyOf · = keyOf first) := by
  have chosen := List.find?_some found
  have fits := (asks_iff host port _).mp chosen
  have asked : port.or ((registrations.filter fun registration =>
      normalizeHost registration.hostname = normalizeHost host).head?.map Registration.port) =
        some first.port := by
    cases port with
    | some given => rw [Option.some_or, fits.2 given rfl, keyOf]
    | none =>
        have sameHost : (fun registration : Registration α =>
            decide (normalizeHost registration.hostname = normalizeHost host)) =
              fun registration => asks host none (keyOf registration) := by
          funext registration
          rw [Bool.eq_iff_iff, decide_eq_true_iff, asks_iff]
          simp [keyOf]
        rw [Option.none_or, sameHost, List.head?_filter, found]
        rfl
  unfold selected
  dsimp only
  rw [asked, List.filter_filter]
  refine List.filter_congr fun registration _ => ?_
  rw [Bool.eq_iff_iff, Bool.and_eq_true, decide_eq_true_iff, decide_eq_true_iff,
    decide_eq_true_iff, keyOf, keyOf, Prod.mk.injEq, Option.some.injEq, and_comm]
  have host := fits.1
  rw [keyOf] at host
  rw [← host]

/-- The table that a request is given is built from the registrations selected for it,
and it is given none if there are none. -/
theorem hostTable?_selected {registrations : List (Registration α)} {table : Table α}
    (built : build registrations = .ok table) (host : String) (port : Option UInt16) :
    match table.hostTable? host port with
    | none => selected registrations host port = []
    | some served => ∃ declared, HostTable.build (normalizeHost host) declared
        (selected registrations host port) = .ok served := by
  obtain ⟨hosts, ran, rfl⟩ : ∃ hosts, (byHost registrations).mapM buildHost = .ok hosts ∧
      table = ⟨hosts⟩ := by
    unfold build at built
    cases ran : (byHost registrations).mapM buildHost with
    | error failure =>
        rw [ran] at built
        cases built
    | ok hosts =>
        rw [ran] at built
        cases built
        exact ⟨hosts, rfl, rfl⟩
  have search := find?_mapM_ok ran (asks host port ·.1) (asks host port ·.1) <| by
    intro group entry done
    rw [(buildHost_key done).1]
  rw [byHost_eq, List.find?_map, find?_eraseDups, List.find?_map] at search
  simp only [Function.comp_def] at search
  rw [hostTable?_eq]
  cases found : registrations.find? (asks host port <| keyOf ·) with
  | none =>
      rw [found] at search
      dsimp only [Option.map_none] at search
      rw [search]
      exact selected_eq_nil found
  | some first =>
      rw [found] at search
      dsimp only [Option.map_some] at search
      obtain ⟨entry, done, atEntry⟩ := search
      have chosen := List.find?_some found
      have sameHost := ((asks_iff host port _).mp chosen).1
      rw [atEntry, selected_eq_filter found, ← sameHost]
      exact ⟨first.port, (buildHost_key done).2⟩

theorem build_ok_of_forall {registrations : List (Registration α)}
    (succeeds : ∀ key, ∃ served, HostTable.build key.1 key.2
      (registrations.filter (keyOf · = key)) = .ok served) :
    ∃ table, build registrations = .ok table := by
  have eachBuilt : ∀ group ∈ byHost registrations, ∃ entry, buildHost group = .ok entry := by
    intro group member
    rw [byHost_eq] at member
    obtain ⟨key, _, rfl⟩ := List.mem_map.mp member
    obtain ⟨served, done⟩ := succeeds key
    refine ⟨(key, served), ?_⟩
    rw [buildHost, done]
    rfl
  obtain ⟨hosts, ran⟩ := mapM_ok_of_forall eachBuilt
  refine ⟨⟨hosts⟩, ?_⟩
  rw [build, ran]
  rfl

end Table

end VirtualHosts.Dispatch
