/-
The trees that declarations build.

A call either fails, and its receiver stays as it was, or puts one entry at the end.  What
an entry says about its call is told for one call and, by recursion over the bodies of
routes, for all that stands below it.  A body that looks at the outcome of one call before
it makes the next builds no other trees than a list of calls does.
-/

import VirtualHosts.Proofs.Declaration.Calls
import VirtualHosts.Proofs.Declaration.Endpoints

namespace VirtualHosts

variable {α : Type}

/-- An endpoint as a call on a receiver with the pathname `parent` asks for it. -/
structure Endpoint.Follows (endpoint : Endpoint α) (parent : String) (given : Given α) :
    Prop where
  pathname : endpoint.pathname = parent ++ given.pathname
  target : given.targets = [endpoint.target]
  sound : endpoint.Sound
  classified : endpoint.Classified

theorem Endpoint.follows_of_under {parent : String} {verbs : VerbSet} {given : Given α}
    {endpoint : Endpoint α} (declared : Endpoint.under parent verbs given = .ok endpoint) :
    endpoint.Follows parent given ∧ endpoint.verbs = verbs := by
  obtain ⟨sound, named, same, target⟩ := Endpoint.under_eq_ok declared
  exact ⟨⟨named, target, sound, endpoint.classified⟩, same⟩

/-- The error that a call returns. -/
def Outcome.error? : Outcome → Option DeclarationError
  | .made error _ _ => error

namespace Declaration

def error? (parent : String) (declaration : Declaration α) : Option DeclarationError :=
  match (make parent declaration).1 with
  | .ok _ => none
  | .error failure => some failure

mutual

/-- Whether an entry is what a call on a receiver with the pathname `parent` adds. -/
def Records (parent : String) : Declaration α → Entry α → Prop
  | .endpoint verbs given, entry =>
      ∃ declared, entry = .endpoint declared ∧ declared.Follows parent given ∧
        declared.verbs = verbs
  | .named names given, entry =>
      ∃ declared, entry = .endpoint declared ∧ declared.Follows parent given ∧
        VerbSet.ofNames names = .ok declared.verbs
  | .directory pathname path, entry =>
      ∃ declared, entry = .endpoint declared ∧
        declared.Follows parent (.sorted ⟨pathname, [.file path]⟩) ∧
        declared.verbs = .single .static
  | .middleware given, entry =>
      ∃ declared, entry = .middleware declared ∧
        declared.pathname =
          (if given.pathname = anyPath then anyPath else parent ++ given.pathname) ∧
        given.targets = [.process declared.handler]
  | .route suffix _ body, entry =>
      ∃ entries, entry = .route (parent ++ suffix) entries ∧
        ListRecords (parent ++ suffix) body entries

/-- Whether entries are what calls add: one for each call that succeeds, in their order. -/
def ListRecords (pathname : String) : List (Declaration α) → List (Entry α) → Prop
  | [], entries => entries = []
  | declaration :: rest, entries =>
      match declaration.error? pathname with
      | some _ => ListRecords pathname rest entries
      | none => ∃ entry later, entries = entry :: later ∧
          Records pathname declaration entry ∧ ListRecords pathname rest later

end

mutual

theorem records_of_make (parent : String) : (declaration : Declaration α) → {entry : Entry α} →
    (make parent declaration).1 = .ok entry → Records parent declaration entry
  | .route suffix lenient body, entry, made => by
      rw [make_route parent suffix lenient body made, Records]
      exact ⟨_, rfl, listRecords_added (parent ++ suffix) body⟩
  | .endpoint verbs given, entry, made => by
      rw [make] at made
      obtain ⟨declared, under, rfl⟩ := map_eq_ok_iff.mp made
      obtain ⟨follows, same⟩ := Endpoint.follows_of_under under
      rw [Records]
      exact ⟨declared, rfl, follows, same⟩
  | .named names given, entry, made => by
      rw [make] at made
      cases named : VerbSet.ofNames names with
      | error failure =>
          rw [named] at made
          cases made
      | ok verbs =>
          rw [named] at made
          obtain ⟨declared, under, rfl⟩ := map_eq_ok_iff.mp made
          obtain ⟨follows, same⟩ := Endpoint.follows_of_under under
          rw [Records]
          exact ⟨declared, rfl, follows, by rw [same, named]⟩
  | .directory pathname path, entry, made => by
      rw [make] at made
      obtain ⟨declared, under, rfl⟩ := map_eq_ok_iff.mp made
      obtain ⟨follows, same⟩ := Endpoint.follows_of_under under
      rw [Records]
      exact ⟨declared, rfl, follows, same⟩
  | .middleware given, entry, made => by
      rw [make] at made
      obtain ⟨declared, under, rfl⟩ := map_eq_ok_iff.mp made
      rw [Records]
      exact ⟨declared, rfl, Middleware.under_eq_ok under⟩

theorem listRecords_added (pathname : String) : (declarations : List (Declaration α)) →
    ListRecords pathname declarations (added pathname declarations)
  | [] => rfl
  | declaration :: rest => by
      have later := listRecords_added pathname rest
      rw [ListRecords, added_cons, error?]
      cases made : (make pathname declaration).1 with
      | error failure => exact later
      | ok entry => exact ⟨entry, _, rfl, records_of_make pathname declaration made, later⟩

end

/-! ### One more call -/

theorem makeAll_append (pathname : String) (lenient : Bool) (entries : List (Entry α))
    (before after : List (Declaration α)) :
    makeAll pathname lenient entries (before ++ after) =
      match makeAll pathname lenient entries before with
      | (held, outcomes, some failure) => (held, outcomes, some failure)
      | (held, outcomes, none) =>
          ((makeAll pathname lenient held after).1,
            outcomes ++ (makeAll pathname lenient held after).2.1,
            (makeAll pathname lenient held after).2.2) := by
  induction before generalizing entries with
  | nil => rfl
  | cons declaration rest ih =>
      rw [List.cons_append, makeAll, makeAll]
      cases made : make pathname declaration with
      | mk result inner =>
          cases result with
          | ok entry =>
              simp only [ih (entries ++ [entry])]
              cases ran : makeAll pathname lenient (entries ++ [entry]) rest with
              | mk held others =>
                  cases others with
                  | mk outcomes stopped => cases stopped <;> rfl
          | error failure =>
              cases lenient with
              | false => rfl
              | true =>
                  simp only [ih entries, if_true]
                  cases ran : makeAll pathname true entries rest with
                  | mk held others =>
                      cases others with
                      | mk outcomes stopped => cases stopped <;> rfl

/-! ### Bodies that go on after an error -/

theorem makeAll_lenient_cons (pathname : String) (entries : List (Entry α))
    (declaration : Declaration α) (rest : List (Declaration α)) :
    (makeAll pathname true entries (declaration :: rest)).1 =
      match (make pathname declaration).1 with
      | .ok entry => (makeAll pathname true (entries ++ [entry]) rest).1
      | .error _ => (makeAll pathname true entries rest).1 := by
  rw [makeAll]
  cases make pathname declaration with
  | mk result inner => cases result <;> rfl

theorem makeAll_lenient_stopped (pathname : String) (entries : List (Entry α))
    (declarations : List (Declaration α)) :
    (makeAll pathname true entries declarations).2.2 = none := by
  induction declarations generalizing entries with
  | nil => rfl
  | cons declaration rest ih =>
      rw [makeAll]
      cases make pathname declaration with
      | mk result inner =>
          cases result with
          | ok entry => exact ih (entries ++ [entry])
          | error failure => exact ih entries

theorem make_lenient_route (pathname suffix : String) (body : List (Declaration α)) :
    (make pathname (.route suffix true body)).1 =
      .ok (.route (pathname ++ suffix)
        (makeAll (pathname ++ suffix) true [] body).1) := by
  have finished := makeAll_lenient_stopped (pathname ++ suffix) [] body
  rw [make]
  cases ran : makeAll (pathname ++ suffix) true [] body with
  | mk entries others =>
      cases others with
      | mk outcomes stopped =>
          rw [ran] at finished
          cases finished
          rfl

/-- What a call does to its receiver: nothing if it returns an error, and otherwise it extends
the receiver by the entry that records it. -/
def Settles (declaration : Declaration α) (parent : String) (outcome : Outcome)
    (unchanged : Prop) (extended : Entry α → Prop) : Prop :=
  outcome.error? = declaration.error? parent ∧
    match outcome.error? with
    | some _ => unchanged
    | none => ∃ entry, declaration.Records parent entry ∧ extended entry

end Declaration

theorem Host.declareAll_append (host : Host α) (before after : List (Declaration α)) :
    host.declareAll (before ++ after) =
      (((host.declareAll before).1.declareAll after).1,
        (host.declareAll before).2 ++ ((host.declareAll before).1.declareAll after).2) := by
  induction before generalizing host with
  | nil => rfl
  | cons declaration rest ih =>
      rw [List.cons_append, Host.declareAll, Host.declareAll]
      cases made : declaration.make "" with
      | mk result inner => cases result <;> simp only [ih, List.cons_append]

/-- The host with one more entry at its end: a route among the routes, anything else in the base. -/
def Host.withEntry (host : Host α) (entry : Entry α) : Host α :=
  match entry.route? with
  | some route => { host with routes := host.routes ++ [route] }
  | none => { host with base := host.base ++ [entry] }

theorem Host.push_eq_withEntry (host : Host α) (entry : Entry α) :
    host.push entry = host.withEntry entry := by
  cases entry <;> rfl

theorem Host.declareAll_concat (host : Host α) (before : List (Declaration α))
    (declaration : Declaration α) :
    ∃ outcome,
      (host.declareAll (before ++ [declaration])).2 = (host.declareAll before).2 ++ [outcome] ∧
      declaration.Settles "" outcome
        ((host.declareAll (before ++ [declaration])).1 = (host.declareAll before).1)
        (fun entry => (host.declareAll (before ++ [declaration])).1 =
          (host.declareAll before).1.withEntry entry) := by
  rw [Host.declareAll_append]
  generalize (host.declareAll before).1 = held
  cases made : declaration.make "" with
  | mk result inner =>
      have result_eq : (declaration.make "").1 = result := by rw [made]
      simp only [Host.declareAll, made, Declaration.Settles, Declaration.error?]
      cases result with
      | error failure => exact ⟨_, rfl, rfl, rfl⟩
      | ok entry =>
          refine ⟨_, rfl, rfl, entry, ?_, ?_⟩
          · exact Declaration.records_of_make "" declaration result_eq
          · exact held.push_eq_withEntry entry

theorem Declaration.makeAll_concat (pathname : String) (lenient : Bool)
    (entries : List (Entry α)) (before : List (Declaration α)) (declaration : Declaration α) :
    match makeAll pathname lenient entries before with
    | (held, outcomes, some failure) =>
        makeAll pathname lenient entries (before ++ [declaration]) =
          (held, outcomes, some failure)
    | (held, outcomes, none) =>
        ∃ outcome,
          (makeAll pathname lenient entries (before ++ [declaration])).2.1 =
            outcomes ++ [outcome] ∧
          declaration.Settles pathname outcome
            ((makeAll pathname lenient entries (before ++ [declaration])).1 = held)
            (fun entry =>
              (makeAll pathname lenient entries (before ++ [declaration])).1 =
                held ++ [entry]) := by
  rw [makeAll_append]
  cases ran : makeAll pathname lenient entries before with
  | mk held others =>
      cases others with
      | mk outcomes stopped =>
          cases stopped with
          | some failure => rfl
          | none =>
              cases made : make pathname declaration with
              | mk result inner =>
                  have result_eq : (make pathname declaration).1 = result := by rw [made]
                  simp only [makeAll, made, Settles, error?]
                  cases result with
                  | ok entry =>
                      exact ⟨_, rfl, rfl, entry,
                        records_of_make pathname declaration result_eq, rfl⟩
                  | error failure =>
                      cases lenient <;> exact ⟨_, rfl, rfl, rfl⟩

/-! ### Bodies that look at outcomes -/

/-- The body of a route as its caller writes it.  After each call it goes on as the outcome of
the call tells it to, and it ends well or with an error of its own. -/
inductive Body (α : Type) where
  | done (error : Option DeclarationError)
  | call (declaration : Declaration α) (next : Option DeclarationError → Body α)
  | route (suffix : String) (inner : Body α) (next : Option DeclarationError → Body α)

namespace Body

/-- Runs a body on the entries of a route, and gives the error that it ends with. -/
def run (pathname : String) (entries : List (Entry α)) :
    Body α → List (Entry α) × Option DeclarationError
  | .done error => (entries, error)
  | .call declaration next =>
      match (declaration.make pathname).1 with
      | .ok entry => (next none).run pathname (entries ++ [entry])
      | .error failure => (next (some failure)).run pathname entries
  | .route suffix inner next =>
      match inner.run (pathname ++ suffix) [] with
      | (children, none) =>
          (next none).run pathname (entries ++ [.route (pathname ++ suffix) children])
      | (_, some failure) => (next (some failure)).run pathname entries

/-- The calls of a run that succeed, in their order. -/
def made (pathname : String) : Body α → List (Declaration α)
  | .done _ => []
  | .call declaration next =>
      match (declaration.make pathname).1 with
      | .ok _ => declaration :: (next none).made pathname
      | .error failure => (next (some failure)).made pathname
  | .route suffix inner next =>
      match (inner.run (pathname ++ suffix) []).2 with
      | none => .route suffix true (inner.made (pathname ++ suffix)) :: (next none).made pathname
      | some failure => (next (some failure)).made pathname

/-- A run leaves what its successful calls leave when they are made one after another. -/
theorem run_eq (pathname : String) (entries : List (Entry α)) (body : Body α) :
    (body.run pathname entries).1 =
      (Declaration.makeAll pathname true entries (body.made pathname)).1 := by
  induction body generalizing pathname entries with
  | done error => rfl
  | call declaration next ih =>
      rw [run, made]
      cases result : (declaration.make pathname).1 with
      | ok entry =>
          simp only [Declaration.makeAll_lenient_cons, result]
          exact ih none pathname (entries ++ [entry])
      | error failure => exact ih (some failure) pathname entries
  | route suffix inner next ihInner ihNext =>
      have children := ihInner (pathname ++ suffix) []
      rw [run, made]
      cases ran : inner.run (pathname ++ suffix) [] with
      | mk left error =>
          rw [ran] at children
          cases error with
          | some failure => exact ihNext (some failure) pathname entries
          | none =>
              simp only [Declaration.makeAll_lenient_cons, Declaration.make_lenient_route]
              rw [← children]
              exact ihNext none pathname _

theorem make_route (parent suffix : String) (body : Body α) :
    (Declaration.make parent (.route suffix true (body.made (parent ++ suffix)))).1 =
      .ok (.route (parent ++ suffix) (body.run (parent ++ suffix) []).1) := by
  rw [Declaration.make_lenient_route, run_eq]

end Body

/-! ### Receivers under every sequence of calls -/

namespace Declaration

/-- On a host and on a route, a call settles in one of two ways.  So the host and the route
hold what their calls record, and bodies that look at outcomes add nothing to that. -/
theorem receivers_hold_their_calls :
    (∀ (host : Host α) (before : List (Declaration α)) (declaration : Declaration α),
      ∃ outcome,
        (host.declareAll (before ++ [declaration])).2 =
          (host.declareAll before).2 ++ [outcome] ∧
        declaration.Settles "" outcome
          ((host.declareAll (before ++ [declaration])).1 = (host.declareAll before).1)
          (fun entry => (host.declareAll (before ++ [declaration])).1 =
            (host.declareAll before).1.withEntry entry)) ∧
    (∀ (pathname : String) (lenient : Bool) (entries : List (Entry α))
        (before : List (Declaration α)) (declaration : Declaration α),
      match makeAll pathname lenient entries before with
      | (held, outcomes, some failure) =>
          makeAll pathname lenient entries (before ++ [declaration]) =
            (held, outcomes, some failure)
      | (held, outcomes, none) =>
          ∃ outcome,
            (makeAll pathname lenient entries (before ++ [declaration])).2.1 =
              outcomes ++ [outcome] ∧
            declaration.Settles pathname outcome
              ((makeAll pathname lenient entries (before ++ [declaration])).1 = held)
              (fun entry =>
                (makeAll pathname lenient entries (before ++ [declaration])).1 =
                  held ++ [entry])) ∧
    (∀ (run : HostRun α) (host : Host α), run.host? = .ok host →
      ∃ entries, ListRecords "" run.declarations entries ∧
        host.base = entries.filter (·.route?.isNone) ∧
        host.routes = entries.filterMap (·.route?)) ∧
    (∀ (pathname : String) (declarations : List (Declaration α)),
      ListRecords pathname declarations (makeAll pathname true [] declarations).1) ∧
    (∀ (pathname : String) (entries : List (Entry α)) (body : Body α),
      (body.run pathname entries).1 =
        (makeAll pathname true entries (body.made pathname)).1) ∧
    (∀ (parent suffix : String) (body : Body α),
      (make parent (.route suffix true (body.made (parent ++ suffix)))).1 =
        .ok (.route (parent ++ suffix) (body.run (parent ++ suffix) []).1)) := by
  refine ⟨Host.declareAll_concat, makeAll_concat, ?_, ?_, Body.run_eq, Body.make_route⟩
  · intro run host opened
    obtain ⟨_, _, base, routes⟩ := HostRun.host?_eq_ok opened
    exact ⟨_, listRecords_added "" run.declarations, base, routes⟩
  · intro pathname declarations
    have finished := makeAll_lenient_stopped pathname [] declarations
    rw [makeAll_entries pathname true declarations [] finished, List.nil_append]
    exact listRecords_added pathname declarations

end Declaration

/-- Two of these calls fail: one inside the body of the route, and the last one on the host. -/
def HostRun.shop : HostRun Nat where
  hostname := "shop.test"
  options := {}
  declarations := [
    .middleware (.plain [.callable 10]),
    .route "/cart" true [
      .endpoint (.single .get) (.plain [.text "/items", .callable 1]),
      .endpoint .empty (.plain [.text "/none", .callable 2]),
      .directory "/pictures" "public/cart"],
    .endpoint .every (.plain [])]

def Host.shop : Host Nat where
  hostname := "shop.test"
  options := {}
  base := [.middleware ⟨"*", 10⟩]
  routes := [⟨"/cart", [
    .endpoint ⟨"/cart/items", .single .get, .process 1⟩,
    .endpoint ⟨"/cart/pictures", .single .static, .file "public/cart"⟩]⟩]

theorem Declaration.receivers_hold_their_calls_shop :
    HostRun.shop.host? = .ok Host.shop ∧
      ∃ entries, ListRecords "" HostRun.shop.declarations entries ∧
        Host.shop.base = entries.filter (·.route?.isNone) ∧
        Host.shop.routes = entries.filterMap (·.route?) := by
  obtain ⟨_, _, hosts, _⟩ := receivers_hold_their_calls (α := Nat)
  exact ⟨rfl, hosts HostRun.shop Host.shop rfl⟩

end VirtualHosts
