/-
Requests served by chains of handlers.

A request names its host and its port in headers.  The chain that is found for them is run from
the front, each handler on the request that the one before passed on, up to the first that
answers.  Handlers may do anything besides to a world of any kind, so a handler that is run
twice, out of turn or behind the answer is not the same as one that is not.
-/

import Mathlib.Data.List.Chain
import VirtualHosts.Dispatch
import VirtualHosts.Proofs.Sequence
import VirtualHosts.Proofs.Text

namespace VirtualHosts.Http

/-! ### Headers -/

/-- Whether the first header with a name has a text for its value: visible characters of ASCII,
spaces and tabs. -/
def Request.Tells (request : Request) (name text : String) : Prop :=
  (∀ c ∈ text.toList, c = '\t' ∨ 0x20 ≤ c.toNat ∧ c.toNat < 0x7F) ∧
    ∃ before header after, request.headers = before ++ header :: after ∧
      header.name = name ∧ header.value = text ∧ ∀ earlier ∈ before, earlier.name ≠ name

theorem Request.readable?_eq_some_iff {request : Request} {name text : String} :
    request.readable? name = some text ↔ request.Tells name text := by
  have readable : isReadable text = true ↔
      ∀ c ∈ text.toList, c = '\t' ∨ 0x20 ≤ c.toNat ∧ c.toNat < 0x7F := by
    simp [isReadable]
  rw [readable?, values, List.head?_map, List.head?_filter, Option.filter_eq_some_iff,
    Option.map_eq_some_iff, readable, Tells, and_comm]
  refine and_congr_right fun _ => ?_
  constructor
  · rintro ⟨header, found, same⟩
    obtain ⟨named, before, after, whole, others⟩ := List.find?_eq_some_iff_append.mp found
    refine ⟨before, header, after, whole, eq_of_beq named, same, fun earlier member => ?_⟩
    simpa using others earlier member
  · rintro ⟨before, header, after, whole, named, same, others⟩
    refine ⟨header, List.find?_eq_some_iff_append.mpr ?_, same⟩
    refine ⟨beq_iff_eq.mpr named, before, after, whole, fun earlier member => ?_⟩
    simpa using others earlier member

/-! ### Chains -/

/-- A handler that was run: on which request, and what came of it. -/
structure Handled (α : Type) where
  handler : α
  request : Request
  flow : Flow

/-- Handlers that note every run of theirs beside what they do. -/
def noted {m : Type → Type} [Monad m] {α : Type} (run : α → Request → m Flow) (handler : α)
    (request : Request) : StateT (List (Handled α)) m Flow := do
  let flow ← run handler request
  modify (· ++ [⟨handler, request, flow⟩])
  return flow

section

variable {α σ : Type}

/-- What a row of runs makes of a world, each of them starting from what the one before left. -/
inductive Performs (run : α → Request → StateM σ Flow) : σ → List (Handled α) → σ → Prop
  | none (world : σ) : Performs run world [] world
  | more {world next after : σ} {first : Handled α} {later : List (Handled α)}
      (ran : (run first.handler first.request).run world = (first.flow, next))
      (others : Performs run next later after) : Performs run world (first :: later) after

/-- A chain that answers a request: the handlers that are run, from the front of the chain, and
the response.  Either the last of them answers, or all of the chain is run and none does. -/
structure Answers (chain : List α) (request : Request) (runs : List (Handled α))
    (response : Response) : Prop where
  handlers : runs.map Handled.handler <+: chain
  first : ∀ entry ∈ runs.head?, entry.request = request
  passedOn : runs.IsChain fun earlier later => earlier.flow = .next later.request
  ending : (∃ before last, runs = before ++ [last] ∧ last.flow = .respond response) ∨
    (runs.map Handled.handler = chain ∧ (∀ entry ∈ runs, ∃ next, entry.flow = .next next) ∧
      response = .notFound)

theorem Answers.nil (request : Request) : Answers ([] : List α) request [] .notFound where
  handlers := List.prefix_rfl
  first := nofun
  passedOn := .nil
  ending := .inr ⟨rfl, nofun, rfl⟩

theorem Answers.respond (handler : α) (rest : List α) (request : Request) (response : Response) :
    Answers (handler :: rest) request [⟨handler, request, .respond response⟩] response where
  handlers := List.prefix_append [handler] rest
  first := by simp
  passedOn := .singleton _
  ending := .inl ⟨[], _, rfl, rfl⟩

theorem Answers.next {rest : List α} {next : Request} {runs : List (Handled α)}
    {response : Response} (later : Answers rest next runs response) (handler : α)
    (request : Request) :
    Answers (handler :: rest) request (⟨handler, request, .next next⟩ :: runs) response where
  handlers := List.cons_prefix_cons.mpr ⟨rfl, later.handlers⟩
  first := by simp
  passedOn := List.isChain_cons.mpr
    ⟨fun entry second => congrArg Flow.next (later.first entry second).symm, later.passedOn⟩
  ending := by
    rcases later.ending with ⟨before, last, rfl, answered⟩ | ⟨whole, passed, missing⟩
    · exact .inl ⟨_ :: before, last, rfl, answered⟩
    · refine .inr ⟨congrArg (handler :: ·) whole, ?_, missing⟩
      exact List.forall_mem_cons.mpr ⟨⟨next, rfl⟩, passed⟩

theorem noted_run {run : α → Request → StateM σ Flow} {handler : α} {request : Request}
    {flow : Flow} {world after : σ} (ran : (run handler request).run world = (flow, after))
    (seen : List (Handled α)) :
    ((noted run handler request).run seen).run world =
      ((flow, seen ++ [⟨handler, request, flow⟩]), after) := by
  have lifted : ((monadLift (run handler request) : StateT _ (StateM σ) Flow).run seen).run
      world = ((flow, seen), after) := by
    rw [StateT.run_monadLift]
    exact run_bind_of_run ran
  rw [noted, StateT.run_bind]
  exact run_bind_of_run lifted

/-- A chain whose handlers note their runs does what the chain does, and notes the runs that
made its answer. -/
theorem runChain_noted (run : α → Request → StateM σ Flow) (chain : List α) (request : Request)
    (seen : List (Handled α)) (world : σ) :
    ∃ runs response after,
      ((runChain (noted run) chain request).run seen).run world =
          ((response, seen ++ runs), after) ∧
        (runChain run chain request).run world = (response, after) ∧
        Performs run world runs after ∧ Answers chain request runs response := by
  induction chain generalizing request seen world with
  | nil =>
      refine ⟨[], .notFound, world, ?_, rfl, .none world, .nil request⟩
      rw [List.append_nil]
      rfl
  | cons handler rest ih =>
      cases ran : (run handler request).run world with
      | mk flow next =>
          have noting := noted_run ran seen
          cases flow with
          | respond response =>
              refine ⟨_, response, next, ?_, ?_, .more ran (.none next),
                .respond handler rest request response⟩
              · rw [runChain, StateT.run_bind]
                exact run_bind_of_run noting
              · rw [runChain]
                exact run_bind_of_run ran
          | next passed =>
              obtain ⟨runs, response, after, withNotes, without, performed, answered⟩ :=
                ih passed (seen ++ [⟨handler, request, .next passed⟩]) next
              refine ⟨_ :: runs, response, after, ?_, ?_, .more ran performed,
                answered.next handler request⟩
              · rw [List.append_assoc, List.singleton_append] at withNotes
                rw [runChain, StateT.run_bind, run_bind_of_run noting]
                exact withNotes
              · rw [runChain, run_bind_of_run ran]
                exact without

/-- Handlers that do nothing but answer leave every world as it is. -/
theorem runChain_pure (answer : α → Request → Flow) (chain : List α) (request : Request)
    (world : σ) :
    (runChain (fun handler request => (pure (answer handler request) : StateM σ Flow)) chain
        request).run world =
      (Id.run (runChain (fun handler request => pure (answer handler request)) chain request),
        world) := by
  induction chain generalizing request with
  | nil => rfl
  | cons handler rest ih =>
      rw [runChain, runChain, pure_bind, pure_bind]
      cases answer handler request with
      | next passed => exact ih passed
      | respond response => rfl

end

end VirtualHosts.Http

namespace VirtualHosts.Dispatch

/-! ### Hosts and ports of requests -/

/-- Whether characters write a port: decimal digits, possibly behind a plus sign, of a number
that has sixteen bits. -/
def WritesPort (chars : List Char) (port : UInt16) : Prop :=
  ∃ digits, (chars = digits ∨ chars = '+' :: digits) ∧ digits ≠ [] ∧
    (∀ c ∈ digits, c.isDigit = true) ∧ Text.decimalValue digits = port.toNat

theorem portOf?_eq_some_iff {text : String} {port : UInt16} :
    portOf? text = some port ↔ WritesPort (Text.trim text.toList) port := by
  generalize trimmed : Text.trim text.toList = chars
  have within (number : Nat) :
      (number < UInt16.size ∧ UInt16.ofNat number = port) ↔ number = port.toNat := by
    constructor
    · rintro ⟨small, rfl⟩
      exact (UInt16.toNat_ofNat_of_lt small).symm
    · rintro rfl
      exact ⟨port.toNat_lt, UInt16.ofNat_toNat⟩
  have read (digits : List Char) :
      ((Text.natural? 10 digits).filter (· < UInt16.size)).map UInt16.ofNat = some port ↔
        digits ≠ [] ∧ (∀ c ∈ digits, c.isDigit = true) ∧
          Text.decimalValue digits = port.toNat := by
    simp only [Option.map_eq_some_iff, Option.filter_eq_some_iff, Text.natural?_ten_eq_some_iff,
      decide_eq_true_iff]
    constructor
    · rintro ⟨number, ⟨⟨nonempty, digits, rfl⟩, small⟩, same⟩
      exact ⟨nonempty, digits, (within _).mp ⟨small, same⟩⟩
    · rintro ⟨nonempty, digits, same⟩
      obtain ⟨small, back⟩ := (within _).mpr same
      exact ⟨_, ⟨⟨nonempty, digits, rfl⟩, small⟩, back⟩
  rw [portOf?, trimmed, read, WritesPort]
  by_cases signed : chars.head? = some '+'
  · obtain ⟨rest, rfl⟩ := List.head?_eq_some_iff.mp signed
    rw [if_pos signed, List.drop_one, List.tail_cons]
    constructor
    · exact fun written => ⟨rest, .inr rfl, written⟩
    · rintro ⟨digits, rfl | same, nonempty, decimal, value⟩
      · exact absurd (decimal '+' List.mem_cons_self) (by decide)
      · cases same
        exact ⟨nonempty, decimal, value⟩
  · rw [if_neg signed]
    constructor
    · exact fun written => ⟨chars, .inl rfl, written⟩
    · rintro ⟨digits, rfl | rfl, written⟩
      · exact written
      · exact absurd rfl signed

/-- The host and the port that a request is for. -/
structure Addressed (request : Http.Request) (host : String) (port : Option UInt16) : Prop where
  told : ∀ text, request.Tells "host" text → host = text
  untold : (∀ text, ¬request.Tells "host" text) → host = request.uri.host?.getD ""
  forwarded : ∀ number, port = some number ↔
    ∃ text, request.Tells portHeader text ∧ WritesPort (Text.trim text.toList) number

theorem addressed (request : Http.Request) :
    Addressed request (hostOf request) (forwardedPort? request) where
  told := by
    intro text told
    rw [hostOf, Http.Request.readable?_eq_some_iff.mpr told]
    rfl
  untold := by
    intro untold
    have unread : request.readable? "host" = none := by
      rw [Option.eq_none_iff_forall_ne_some]
      intro text read
      exact untold text (Http.Request.readable?_eq_some_iff.mp read)
    rw [hostOf, unread, Option.none_or]
  forwarded := by
    intro number
    simp only [forwardedPort?, Option.bind_eq_some_iff, Http.Request.readable?_eq_some_iff,
      portOf?_eq_some_iff]

/-! ### Requests -/

/-- A request is served by the chain that is found for its host, its port, its method and its
path.  Its handlers are run from the front, the first with what the path binds, up to the one
that answers, and nothing else is run.  Where no chain is found, no handler is. -/
theorem Table.serve_runs_found_chain {α σ : Type} (table : Table α)
    (run : α → Http.Request → StateM σ Http.Flow) (request : Http.Request) (world : σ) :
    ∃ host port runs response after,
      Addressed request host port ∧
      ((table.serve (Http.noted run) request).run []).run world = ((response, runs), after) ∧
      (table.serve run request).run world = (response, after) ∧
      Http.Performs run world runs after ∧
      (match table.lookup host port request.method request.uri.path with
        | .found chain params => Http.Answers chain { request with params } runs response
        | .methodNotAllowed => runs = [] ∧ response = ⟨405, [], "Method Not Allowed"⟩
        | .notFound => runs = [] ∧ response = ⟨404, [], "Not Found"⟩) ∧
      ∀ answer : α → Http.Request → Http.Flow,
        (table.serve (fun handler request => (pure (answer handler request) : StateM σ _))
          request).run world = (table.dispatch answer request, world) := by
  refine ⟨hostOf request, forwardedPort? request, ?_⟩
  simp only [Table.dispatch, Table.serve]
  cases table.lookup (hostOf request) (forwardedPort? request) request.method
      request.uri.path with
  | found chain params =>
      obtain ⟨runs, response, after, withNotes, without, performed, answered⟩ :=
        Http.runChain_noted run chain { request with params } [] world
      exact ⟨runs, response, after, addressed request, withNotes, without, performed, answered,
        fun answer => Http.runChain_pure answer chain _ world⟩
  | methodNotAllowed =>
      exact ⟨[], _, world, addressed request, rfl, rfl, .none world, ⟨rfl, rfl⟩, fun _ => rfl⟩
  | notFound =>
      exact ⟨[], _, world, addressed request, rfl, rfl, .none world, ⟨rfl, rfl⟩, fun _ => rfl⟩

end VirtualHosts.Dispatch
