/-
Hostnames and the names they are known by.

A host is known by what is left of its hostname without blanks around it and without a port,
in small letters.  Requests for a hostname find no chain of a host that is known by another
name.
-/

import VirtualHosts.Host
import VirtualHosts.Proofs.Dispatch.Outcomes

namespace VirtualHosts.Dispatch

variable {α : Type}

/-! ### Hostnames without their ports -/

/-- A host and what is left of it without its port.  A port stands behind the last colon, but
behind an opening bracket only what follows the closing one is left out. -/
inductive KnownBy : List Char → List Char → Prop
  | bracketed {inside port : List Char} (closing : ']' ∉ inside) :
      KnownBy ('[' :: (inside ++ ']' :: port)) ('[' :: (inside ++ [']']))
  | unclosed {inside : List Char} (closing : ']' ∉ inside) :
      KnownBy ('[' :: inside) ('[' :: inside)
  | ported {name port : List Char} (bare : (name ++ ':' :: port).head? ≠ some '[')
      (last : ':' ∉ port) : KnownBy (name ++ ':' :: port) name
  | portless {name : List Char} (bare : name.head? ≠ some '[') (none : ':' ∉ name) :
      KnownBy name name

theorem bracketed_append {inside : List Char} (closing : ']' ∉ inside) (port : List Char) :
    bracketed (inside ++ ']' :: port) = inside ++ [']'] := by
  induction inside with
  | nil => rfl
  | cons c inside ih =>
      rw [List.mem_cons, not_or] at closing
      rw [List.cons_append, bracketed, if_neg (Ne.symm closing.1), ih closing.2]
      rfl

theorem bracketed_self {inside : List Char} (closing : ']' ∉ inside) :
    bracketed inside = inside := by
  induction inside with
  | nil => rfl
  | cons c inside ih =>
      rw [List.mem_cons, not_or] at closing
      rw [bracketed, if_neg (Ne.symm closing.1), ih closing.2]

theorem dropWhile_reverse_of_portless {chars : List Char} (none : ':' ∉ chars) :
    chars.reverse.dropWhile (· != ':') = [] := by
  rw [List.dropWhile_eq_nil_iff]
  intro c member
  rw [bne_iff_ne]
  intro same
  subst same
  exact none (List.mem_reverse.mp member)

theorem beforePort_append {port : List Char} (last : ':' ∉ port) (name : List Char) :
    beforePort (name ++ ':' :: port) = name := by
  have turned : (name ++ ':' :: port).reverse = port.reverse ++ ':' :: name.reverse := by simp
  unfold beforePort
  rw [turned, List.dropWhile_append, dropWhile_reverse_of_portless last]
  simp

theorem beforePort_self {name : List Char} (none : ':' ∉ name) : beforePort name = name := by
  unfold beforePort
  rw [dropWhile_reverse_of_portless none]

theorem exists_knownBy (host : List Char) : ∃ name, KnownBy host name := by
  by_cases opening : host.head? = some '['
  · obtain ⟨inside, rfl⟩ : ∃ inside, host = '[' :: inside :=
      ⟨host.tail, List.eq_cons_of_mem_head? opening⟩
    by_cases closed : ']' ∈ inside
    · obtain ⟨front, port, rfl, first⟩ := List.eq_append_cons_of_mem closed
      exact ⟨_, .bracketed first⟩
    · exact ⟨_, .unclosed closed⟩
  · by_cases colon : ':' ∈ host
    · obtain ⟨port, name, turned, last⟩ :=
        List.eq_append_cons_of_mem (List.mem_reverse.mpr colon)
      have parts : host = name.reverse ++ ':' :: port.reverse := by
        rw [← List.reverse_reverse host, turned]
        simp
      subst parts
      exact ⟨_, .ported opening fun member => last (List.mem_reverse.mp member)⟩
    · exact ⟨host, .portless opening colon⟩

theorem normalizeHost_of_knownBy {host : String} {name : List Char}
    (known : KnownBy (Text.trim host.toList) name) :
    normalizeHost host = Text.lower (.ofList name) := by
  unfold normalizeHost
  dsimp only
  generalize Text.trim host.toList = trimmed at known
  cases known with
  | bracketed closing =>
      rw [List.head?_cons, if_pos rfl, bracketed, if_neg (by decide), bracketed_append closing]
  | unclosed closing =>
      rw [List.head?_cons, if_pos rfl, bracketed, if_neg (by decide), bracketed_self closing]
  | ported bare last => rw [if_neg bare, beforePort_append last]
  | portless bare none => rw [if_neg bare, beforePort_self none]

/-- Whether two hostnames are the same without blanks around them, without their ports, and in
small letters. -/
def SameName (one other : String) : Prop :=
  ∃ name otherName, KnownBy (Text.trim one.toList) name ∧
    KnownBy (Text.trim other.toList) otherName ∧
      Text.lower (.ofList name) = Text.lower (.ofList otherName)

theorem sameName_iff (one other : String) :
    SameName one other ↔ normalizeHost one = normalizeHost other := by
  constructor
  · rintro ⟨name, otherName, known, otherKnown, same⟩
    rw [normalizeHost_of_knownBy known, normalizeHost_of_knownBy otherKnown, same]
  · intro same
    obtain ⟨name, known⟩ := exists_knownBy (Text.trim one.toList)
    obtain ⟨otherName, otherKnown⟩ := exists_knownBy (Text.trim other.toList)
    rw [normalizeHost_of_knownBy known, normalizeHost_of_knownBy otherKnown] at same
    exact ⟨name, otherName, known, otherKnown, same⟩

/-! ### Requests for a hostname -/

theorem normalizeHost_of_mem_selected {registrations : List (Registration α)} {host : String}
    {port : Option UInt16} {registration : Registration α}
    (chosen : registration ∈ selected registrations host port) :
    registration ∈ registrations ∧ normalizeHost registration.hostname = normalizeHost host := by
  unfold selected at chosen
  obtain ⟨own, _⟩ := List.mem_filter.mp chosen
  obtain ⟨member, same⟩ := List.mem_filter.mp own
  exact ⟨member, of_decide_eq_true same⟩

/-- Among the registrations of two hosts that are known by different names, a request for the
first finds only chains of the first, registered for a pathname and verbs that fit. -/
theorem Table.lookup_keeps_hosts_apart {first second : String} (apart : ¬SameName first second)
    {registrations : List (Registration α)}
    (between : ∀ registration ∈ registrations,
      registration.hostname = first ∨ registration.hostname = second)
    {table : Table α} (built : build registrations = .ok table) {port : Option UInt16}
    {method path : String} {chain : List α} {params : List (String × String)}
    (found : table.lookup first port method path = .found chain params) :
    ∃ registration ∈ registrations, registration.hostname = first ∧
      registration.chain = chain ∧ Matches path registration ∧
        registration.verbs.allows method = true := by
  obtain ⟨declared, served, made, answers⟩ := lookup_of_selected built first port
  rw [answers] at found
  obtain ⟨registration, chosen, asked, allows, same⟩ := HostTable.asked_of_found made found
  obtain ⟨member, named⟩ := normalizeHost_of_mem_selected chosen
  refine ⟨registration, member, ?_, same, asked.matches, allows⟩
  rcases between registration member with own | other
  · exact own
  · rw [other] at named
    exact absurd ((sameName_iff first second).mpr named.symm) apart

def neighbours : List (Registration Nat) :=
  [⟨" Shop.test:8080", 80, "/cart", .every, [1]⟩, ⟨"[::1]:8080", 80, "/cart/:id", .every, [2]⟩,
    ⟨" Shop.test:8080", 81, "*", .every, [3]⟩]

theorem Table.lookup_keeps_hosts_apart_neighbours :
    ¬SameName " Shop.test:8080" "[::1]:8080" ∧
    (∀ registration ∈ neighbours, registration.hostname = " Shop.test:8080" ∨
      registration.hostname = "[::1]:8080") ∧
    ∃ table, build neighbours = .ok table ∧
      table.lookup " Shop.test:8080" (some 80) "GET" "/cart/7" = .found [1] [] ∧
      ∃ registration ∈ neighbours, registration.hostname = " Shop.test:8080" ∧
        registration.chain = [1] := by
  have apart : ¬SameName " Shop.test:8080" "[::1]:8080" := by
    rw [sameName_iff]
    decide +kernel
  have between : ∀ registration ∈ neighbours, registration.hostname = " Shop.test:8080" ∨
      registration.hostname = "[::1]:8080" := by decide +kernel
  have succeeds : (build neighbours).isOk = true := by decide +kernel
  obtain ⟨table, built⟩ := (isOk_iff_exists _).mp succeeds
  have lookups : ((build neighbours).toOption.map fun table =>
      table.lookup " Shop.test:8080" (some 80) "GET" "/cart/7") = some (.found [1] []) := by
    decide +kernel
  rw [built] at lookups
  have found := Option.some.inj lookups
  obtain ⟨registration, member, own, same, _⟩ :=
    lookup_keeps_hosts_apart apart between built found
  exact ⟨apart, between, table, built, found, registration, member, own, same⟩

def ported : List (Registration Nat) :=
  [⟨"a.test:80", 80, "/a", .every, [1]⟩, ⟨"a.test", 80, "/b", .every, [2]⟩]

/-- A hostname that is written with a port is known by the name in front of it, so that its
requests find the chains of a host declared under that name. -/
theorem Table.lookup_leaves_out_port :
    (Host.declare "a.test:80" {} : Except DeclarationError (Host Nat)).isOk = true ∧
      (Host.declare "a.test" {} : Except DeclarationError (Host Nat)).isOk = true ∧
      Text.lower (.ofList (Text.trim "a.test:80".toList)) ≠
        Text.lower (.ofList (Text.trim "a.test".toList)) ∧
    ∃ table, build ported = .ok table ∧
      table.lookup "a.test:80" none "GET" "/b" = .found [2] [] ∧
      ∀ registration ∈ ported, registration.chain = [2] → registration.hostname = "a.test" := by
  have succeeds : (build ported).isOk = true := by decide +kernel
  obtain ⟨table, built⟩ := (isOk_iff_exists _).mp succeeds
  have lookups : ((build ported).toOption.map fun table =>
      table.lookup "a.test:80" none "GET" "/b") = some (.found [2] []) := by decide +kernel
  rw [built] at lookups
  refine ⟨by decide +kernel, by decide +kernel, by decide +kernel, table, built,
    Option.some.inj lookups, by decide +kernel⟩

end VirtualHosts.Dispatch
