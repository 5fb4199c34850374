/-
Reading manifests from documents and files.
-/

import VirtualHosts.Manifest
import VirtualHosts.Settings.Reading

namespace VirtualHosts

def Named.reader : Reader Named := fun allowance value => do
  let record ← Record.open? ["name", "options"] allowance value
  return {
    name := ← record.required "name" Reader.text
    options := ← record.withDefault "options" Reader.options [] }

namespace Manifest

def FixedResponse.reader : Reader FixedResponse := fun allowance value => do
  let record ← Record.open? ["status", "body", "headers"] allowance value
  let default : FixedResponse := {}
  return {
    status := ← record.withDefault "status" Reader.port default.status
    body := ← record.withDefault "body" Reader.text default.body
    headers := ← record.withDefault "headers" (Reader.fields Reader.text) default.headers }

def FixedRedirect.reader : Reader FixedRedirect := fun allowance value => do
  let record ← Record.open? ["to", "code"] allowance value
  let place ← record.required "to" Reader.text
  let default : FixedRedirect := { place }
  return { default with code := ← record.withDefault "code" Reader.port default.code }

def EndpointSpec.reader : Reader EndpointSpec := fun allowance value => do
  let record ← Record.open? ["path", "verbs", "file", "directory", "respond", "redirect"]
    allowance value
  return {
    path := ← record.withDefault "path" (Reader.optional Reader.text) none
    verbs := ← record.withDefault "verbs" (Reader.list Reader.text) []
    file := ← record.withDefault "file" (Reader.optional Reader.text) none
    directory := ← record.withDefault "directory" (Reader.optional Reader.text) none
    respond := ← record.withDefault "respond" (Reader.optional FixedResponse.reader) none
    redirect := ← record.withDefault "redirect" (Reader.optional FixedRedirect.reader) none }

end Manifest

/-! ### Smaller parts of a value -/

theorem Value.sizeOf_named? {name : String} {fields : List (String × Value)} {value : Value}
    (found : Value.named? name fields = some value) : sizeOf value < sizeOf fields := by
  induction fields with
  | nil => cases found
  | cons field rest ih =>
      obtain ⟨other, own⟩ := field
      simp only [Value.named?] at found
      split at found
      · cases found
        simp only [List.cons.sizeOf_spec, Prod.mk.sizeOf_spec]
        omega
      · have smaller := ih found
        simp only [List.cons.sizeOf_spec]
        omega

theorem Value.sizeOf_placed? {name : String} {names : List String} {items : List Value}
    {value : Value} (found : Value.placed? name names items = some value) :
    sizeOf value < sizeOf items := by
  induction names generalizing items with
  | nil => simp [Value.placed?] at found
  | cons other names ih =>
      cases items with
      | nil => simp [Value.placed?] at found
      | cons own rest =>
          simp only [Value.placed?] at found
          split at found
          · cases found
            simp only [List.cons.sizeOf_spec]
            omega
          · have smaller := ih found
            simp only [List.cons.sizeOf_spec]
            omega

theorem Record.sizeOf_field? {record : Record} {name : String} {value : Value}
    (found : record.field? name = some value) : sizeOf value < sizeOf record.value := by
  unfold Record.field? at found
  split at found
  · rename_i fields holds
    have smaller := Value.sizeOf_named? found
    rw [holds, Value.table.sizeOf_spec]
    omega
  · rename_i items holds
    have smaller := Value.sizeOf_placed? found
    rw [holds, Value.array.sizeOf_spec]
    omega
  · cases found

theorem Record.value_of_open? {names : List String} {allowance : Allowance} {value : Value}
    {record : Record} (opened : Record.open? names allowance value = some record) :
    record.value = value := by
  unfold Record.open? at opened
  obtain ⟨inner, _, rest⟩ := Option.bind_eq_some_iff.mp opened
  cases value with
  | table fields =>
      obtain ⟨_, _, same⟩ := Option.bind_eq_some_iff.mp rest
      cases same
      rfl
  | array items =>
      obtain ⟨_, _, same⟩ := Option.bind_eq_some_iff.mp rest
      cases same
      rfl
  | _ => cases rest

theorem Record.sizeOf_items {names : List String} {allowance : Allowance} {value : Value}
    {record : Record} {name : String} {items : List Value}
    (opened : Record.open? names allowance value = some record)
    (found : record.field? name = some (.array items)) : sizeOf items < sizeOf value := by
  have smaller := Record.sizeOf_field? found
  rw [Record.value_of_open? opened, Value.array.sizeOf_spec] at smaller
  omega

namespace Manifest

def RouteSpec.fieldNames : List String := ["path", "endpoint", "route"]

mutual

/-- Reads a route; the routes inside it are smaller parts of the value. -/
def RouteSpec.reader (allowance : Allowance) (value : Value) : Option RouteSpec :=
  match opened : Record.open? RouteSpec.fieldNames allowance value with
  | none => none
  | some record => do
      let path ← record.required "path" Reader.text
      let endpoints ←
        record.withDefault "endpoint" (Reader.list EndpointSpec.reader) []
      let routes ←
        match found : record.field? "route" with
        | none => some []
        | some (.array items) =>
            have : sizeOf items < sizeOf value := Record.sizeOf_items opened found
            match record.allowance.inside with
            | none => none
            | some inner => RouteSpec.readAll inner items
        | some _ => none
      return .mk path endpoints routes
termination_by sizeOf value

def RouteSpec.readAll (allowance : Allowance) : List Value → Option (List RouteSpec)
  | [] => some []
  | value :: rest => do
      return (← RouteSpec.reader allowance value) :: (← RouteSpec.readAll allowance rest)
termination_by items => sizeOf items

end

def routesReader : Reader (List RouteSpec) := fun allowance value =>
  match value with
  | .array items => allowance.inside.bind fun inner => RouteSpec.readAll inner items
  | _ => none

def HostSpec.reader : Reader HostSpec := fun allowance value => do
  let record ← Record.open? ["hostname", "port", "root", "options", "endpoint", "route"]
    allowance value
  return {
    hostname := ← record.required "hostname" Reader.text
    port := ← record.withDefault "port" (Reader.optional Reader.port) none
    root := ← record.withDefault "root" (Reader.optional Reader.text) none
    options := ← record.withDefault "options" (Reader.fields Reader.text) []
    endpoints := ← record.withDefault "endpoint" (Reader.list EndpointSpec.reader) []
    routes := ← record.withDefault "route" routesReader [] }

def reader : Reader Manifest := fun allowance value => do
  let record ← Record.open? ["settings", "engine", "database", "host"] allowance value
  return {
    settings := ← record.withDefault "settings" (Reader.optional Settings.reader) none
    engines := ← record.withDefault "engine" (Reader.list Named.reader) []
    databases := ← record.withDefault "database" (Reader.list Named.reader) []
    hosts := ← record.withDefault "host" (Reader.list HostSpec.reader) [] }

def ofJson (text : String) : Except ConfigError Manifest :=
  Settings.orElse .invalidJsonManifest ((Json.read? text).bind (reader .json))

def ofToml (text : String) : Except ConfigError Manifest :=
  Settings.orElse .invalidTomlManifest ((Toml.read? text).bind (reader .toml))

/-- A manifest from a file, given its name and what it holds.  Every extension but
`json` means TOML. -/
def ofFile (name : String) (content : Except FileError String) :
    Except ConfigError Manifest :=
  match content with
  | .error error => .error (.unreadManifest name error)
  | .ok text => if FilePath.extension? name = some "json" then ofJson text else ofToml text

end Manifest

end VirtualHosts
