/-
Settings that a document gives in part.

What a document says about the settings is an overlay: of every field either nothing or a value,
at every level.  Reading lays it over the defaults, wherever the fields stand in their tables and
whatever else stands there.
-/

import VirtualHosts.Proofs.Address
import VirtualHosts.Proofs.Document.Json
import VirtualHosts.Proofs.Document.Reading
import VirtualHosts.Proofs.Document.Toml
import VirtualHosts.Settings.Reading

namespace VirtualHosts

/-- An address is written as a text that reads as it. -/
def Meaning.address : Meaning Address := fun address value =>
  ∃ text, value = .text text ∧ Address.read? text = some address

theorem Meaning.address_display (address : Address) :
    Meaning.address address (.text address.display) :=
  ⟨address.display, rfl, address.read?_display⟩

theorem Address.reader_follows : Address.reader.Follows .address := by
  rintro allowance given value ⟨text, rfl, read⟩
  exact read

/-! ### The sections -/

namespace ProxySettings

structure Overlay where
  address : Option Address := none
  port : Option UInt16 := none

namespace Overlay

def apply (overlay : Overlay) (base : ProxySettings) : ProxySettings where
  address := overlay.address.getD base.address
  port := overlay.port.getD base.port

/-- What a section says that leaves nothing out. -/
def whole (proxy : ProxySettings) : Overlay where
  address := some proxy.address
  port := some proxy.port

structure WrittenIn (overlay : Overlay) (fields : List (String × Value)) : Prop where
  address : Holds fields "address" .address overlay.address
  port : Holds fields "port" .port overlay.port

end Overlay

theorem reader_of_written {overlay : Overlay} {fields : List (String × Value)}
    {allowance inner : Allowance} (written : overlay.WrittenIn fields)
    (inside : allowance.inside = some inner) :
    reader allowance (.table fields) = some (overlay.apply {}) := by
  have once : ∀ name ∈ fieldNames, (fields.filter (·.1 == name)).length ≤ 1 := by
    simp only [fieldNames, List.forall_mem_cons, List.not_mem_nil, false_implies, implies_true,
      and_true]
    exact ⟨written.address.atMostOnce, written.port.atMostOnce⟩
  rw [reader, Record.open?_table inside once, Option.bind_eq_bind, Option.bind_some,
    Record.withDefault_of_follows written.address Address.reader_follows,
    Record.withDefault_of_follows written.port Reader.port_follows]
  rfl

end ProxySettings

namespace HostsFileSettings

structure Overlay where
  manage : Option Bool := none
  path : Option String := none

namespace Overlay

def apply (overlay : Overlay) (base : HostsFileSettings) : HostsFileSettings where
  manage := overlay.manage.getD base.manage
  path := overlay.path.getD base.path

def whole (hostsFile : HostsFileSettings) : Overlay where
  manage := some hostsFile.manage
  path := some hostsFile.path

structure WrittenIn (overlay : Overlay) (fields : List (String × Value)) : Prop where
  manage : Holds fields "manage" .flag overlay.manage
  path : Holds fields "path" .text overlay.path

end Overlay

theorem reader_of_written {overlay : Overlay} {fields : List (String × Value)}
    {allowance inner : Allowance} (written : overlay.WrittenIn fields)
    (inside : allowance.inside = some inner) :
    reader allowance (.table fields) = some (overlay.apply {}) := by
  have once : ∀ name ∈ fieldNames, (fields.filter (·.1 == name)).length ≤ 1 := by
    simp only [fieldNames, List.forall_mem_cons, List.not_mem_nil, false_implies, implies_true,
      and_true]
    exact ⟨written.manage.atMostOnce, written.path.atMostOnce⟩
  rw [reader, Record.open?_table inside once, Option.bind_eq_bind, Option.bind_some,
    Record.withDefault_of_follows written.manage Reader.flag_follows,
    Record.withDefault_of_follows written.path Reader.text_follows]
  rfl

end HostsFileSettings

namespace Boilerplate

/-- Of `user` and `gzipDisable` it may also be said that there is none. -/
structure Overlay where
  user : Option (Option String) := none
  workerProcesses : Option String := none
  pid : Option String := none
  workerConnections : Option UInt32 := none
  sendfile : Option Bool := none
  tcpNopush : Option Bool := none
  tcpNodelay : Option Bool := none
  keepaliveTimeout : Option UInt32 := none
  typesHashMaxSize : Option UInt32 := none
  mimeTypes : Option String := none
  defaultType : Option String := none
  accessLog : Option String := none
  errorLog : Option String := none
  gzip : Option Bool := none
  gzipDisable : Option (Option String) := none

namespace Overlay

def apply (overlay : Overlay) (base : Boilerplate) : Boilerplate where
  user := overlay.user.getD base.user
  workerProcesses := overlay.workerProcesses.getD base.workerProcesses
  pid := overlay.pid.getD base.pid
  workerConnections := overlay.workerConnections.getD base.workerConnections
  sendfile := overlay.sendfile.getD base.sendfile
  tcpNopush := overlay.tcpNopush.getD base.tcpNopush
  tcpNodelay := overlay.tcpNodelay.getD base.tcpNodelay
  keepaliveTimeout := overlay.keepaliveTimeout.getD base.keepaliveTimeout
  typesHashMaxSize := overlay.typesHashMaxSize.getD base.typesHashMaxSize
  mimeTypes := overlay.mimeTypes.getD base.mimeTypes
  defaultType := overlay.defaultType.getD base.defaultType
  accessLog := overlay.accessLog.getD base.accessLog
  errorLog := overlay.errorLog.getD base.errorLog
  gzip := overlay.gzip.getD base.gzip
  gzipDisable := overlay.gzipDisable.getD base.gzipDisable

def whole (boilerplate : Boilerplate) : Overlay where
  user := some boilerplate.user
  workerProcesses := some boilerplate.workerProcesses
  pid := some boilerplate.pid
  workerConnections := some boilerplate.workerConnections
  sendfile := some boilerplate.sendfile
  tcpNopush := some boilerplate.tcpNopush
  tcpNodelay := some boilerplate.tcpNodelay
  keepaliveTimeout := some boilerplate.keepaliveTimeout
  typesHashMaxSize := some boilerplate.typesHashMaxSize
  mimeTypes := some boilerplate.mimeTypes
  defaultType := some boilerplate.defaultType
  accessLog := some boilerplate.accessLog
  errorLog := some boilerplate.errorLog
  gzip := some boilerplate.gzip
  gzipDisable := some boilerplate.gzipDisable

structure WrittenIn (overlay : Overlay) (fields : List (String × Value)) : Prop where
  user : Holds fields "user" Meaning.text.optional overlay.user
  workerProcesses : Holds fields "worker_processes" .text overlay.workerProcesses
  pid : Holds fields "pid" .text overlay.pid
  workerConnections : Holds fields "worker_connections" .word overlay.workerConnections
  sendfile : Holds fields "sendfile" .flag overlay.sendfile
  tcpNopush : Holds fields "tcp_nopush" .flag overlay.tcpNopush
  tcpNodelay : Holds fields "tcp_nodelay" .flag overlay.tcpNodelay
  keepaliveTimeout : Holds fields "keepalive_timeout" .word overlay.keepaliveTimeout
  typesHashMaxSize : Holds fields "types_hash_max_size" .word overlay.typesHashMaxSize
  mimeTypes : Holds fields "mime_types" .text overlay.mimeTypes
  defaultType : Holds fields "default_type" .text overlay.defaultType
  accessLog : Holds fields "access_log" .text overlay.accessLog
  errorLog : Holds fields "error_log" .text overlay.errorLog
  gzip : Holds fields "gzip" .flag overlay.gzip
  gzipDisable : Holds fields "gzip_disable" Meaning.text.optional overlay.gzipDisable

theorem WrittenIn.once {overlay : Overlay} {fields : List (String × Value)}
    (written : overlay.WrittenIn fields) :
    ∀ name ∈ fieldNames, (fields.filter (·.1 == name)).length ≤ 1 := by
  simp only [fieldNames, List.forall_mem_cons, List.not_mem_nil, false_implies, implies_true,
    and_true]
  exact ⟨written.user.atMostOnce, written.workerProcesses.atMostOnce, written.pid.atMostOnce,
    written.workerConnections.atMostOnce, written.sendfile.atMostOnce,
    written.tcpNopush.atMostOnce, written.tcpNodelay.atMostOnce,
    written.keepaliveTimeout.atMostOnce, written.typesHashMaxSize.atMostOnce,
    written.mimeTypes.atMostOnce, written.defaultType.atMostOnce, written.accessLog.atMostOnce,
    written.errorLog.atMostOnce, written.gzip.atMostOnce, written.gzipDisable.atMostOnce⟩

end Overlay

theorem optionalText_follows : (Reader.optional Reader.text).Follows Meaning.text.optional := by
  apply Reader.optional_follows Reader.text_follows
  intro given means
  cases means

theorem reader_of_written {overlay : Overlay} {fields : List (String × Value)}
    {allowance inner : Allowance} (written : overlay.WrittenIn fields)
    (inside : allowance.inside = some inner) :
    reader allowance (.table fields) = some (overlay.apply {}) := by
  rw [reader, Record.open?_table inside written.once, Option.bind_eq_bind, Option.bind_some]
  dsimp only
  -- The fields are rewritten where they stand: at each of them simp would go twice through all
  -- that come behind.
  rw [Record.withDefault_of_follows written.user optionalText_follows,
    Record.withDefault_of_follows written.workerProcesses Reader.text_follows,
    Record.withDefault_of_follows written.pid Reader.text_follows,
    Record.withDefault_of_follows written.workerConnections Reader.word_follows,
    Record.withDefault_of_follows written.sendfile Reader.flag_follows,
    Record.withDefault_of_follows written.tcpNopush Reader.flag_follows,
    Record.withDefault_of_follows written.tcpNodelay Reader.flag_follows,
    Record.withDefault_of_follows written.keepaliveTimeout Reader.word_follows,
    Record.withDefault_of_follows written.typesHashMaxSize Reader.word_follows,
    Record.withDefault_of_follows written.mimeTypes Reader.text_follows,
    Record.withDefault_of_follows written.defaultType Reader.text_follows,
    Record.withDefault_of_follows written.accessLog Reader.text_follows,
    Record.withDefault_of_follows written.errorLog Reader.text_follows,
    Record.withDefault_of_follows written.gzip Reader.flag_follows,
    Record.withDefault_of_follows written.gzipDisable optionalText_follows]
  rfl

end Boilerplate

/-! ### The settings -/

namespace Settings

structure Overlay where
  outputPath : Option String := none
  proxy : Option ProxySettings.Overlay := none
  clientMaxBodySize : Option String := none
  index : Option String := none
  hostsFile : Option HostsFileSettings.Overlay := none
  maxRouteDepth : Option Nat := none
  boilerplate : Option Boilerplate.Overlay := none

namespace Overlay

/-- A section that is present replaces what it says, and not the whole. -/
def apply (overlay : Overlay) (base : Settings) : Settings where
  outputPath := overlay.outputPath.getD base.outputPath
  proxy := (overlay.proxy.getD {}).apply base.proxy
  clientMaxBodySize := overlay.clientMaxBodySize.getD base.clientMaxBodySize
  index := overlay.index.getD base.index
  hostsFile := (overlay.hostsFile.getD {}).apply base.hostsFile
  maxRouteDepth := overlay.maxRouteDepth.getD base.maxRouteDepth
  boilerplate := (overlay.boilerplate.getD {}).apply base.boilerplate

structure WrittenIn (overlay : Overlay) (fields : List (String × Value)) : Prop where
  outputPath : Holds fields "output_path" .text overlay.outputPath
  proxy : Holds fields "proxy" (.table ProxySettings.Overlay.WrittenIn) overlay.proxy
  clientMaxBodySize : Holds fields "client_max_body_size" .text overlay.clientMaxBodySize
  index : Holds fields "index" .text overlay.index
  hostsFile :
    Holds fields "hosts_file" (.table HostsFileSettings.Overlay.WrittenIn) overlay.hostsFile
  maxRouteDepth :
    Holds fields "max_route_depth" (.natural (Nat.pow 2 64)) overlay.maxRouteDepth
  boilerplate :
    Holds fields "boilerplate" (.table Boilerplate.Overlay.WrittenIn) overlay.boilerplate

theorem WrittenIn.once {overlay : Overlay} {fields : List (String × Value)}
    (written : overlay.WrittenIn fields) :
    ∀ name ∈ fieldNames, (fields.filter (·.1 == name)).length ≤ 1 := by
  simp only [fieldNames, List.forall_mem_cons, List.not_mem_nil, false_implies, implies_true,
    and_true]
  exact ⟨written.outputPath.atMostOnce, written.proxy.atMostOnce,
    written.clientMaxBodySize.atMostOnce, written.index.atMostOnce,
    written.hostsFile.atMostOnce, written.maxRouteDepth.atMostOnce,
    written.boilerplate.atMostOnce⟩

end Overlay

theorem reader_of_written {overlay : Overlay} {fields : List (String × Value)}
    {allowance inner innermost : Allowance} (written : overlay.WrittenIn fields)
    (inside : allowance.inside = some inner) (deeper : inner.inside = some innermost) :
    reader allowance (.table fields) = some (overlay.apply {}) := by
  have proxy : (⟨fieldNames, .table fields, inner⟩ : Record).withDefault "proxy"
      ProxySettings.reader {} = some ((overlay.proxy.getD {}).apply {}) :=
    Record.withDefault_of_table written.proxy
      (fun _ _ below => ProxySettings.reader_of_written below deeper) {}
  have hostsFile : (⟨fieldNames, .table fields, inner⟩ : Record).withDefault "hosts_file"
      HostsFileSettings.reader {} = some ((overlay.hostsFile.getD {}).apply {}) :=
    Record.withDefault_of_table written.hostsFile
      (fun _ _ below => HostsFileSettings.reader_of_written below deeper) {}
  have boilerplate : (⟨fieldNames, .table fields, inner⟩ : Record).withDefault "boilerplate"
      Boilerplate.reader {} = some ((overlay.boilerplate.getD {}).apply {}) :=
    Record.withDefault_of_table written.boilerplate
      (fun _ _ below => Boilerplate.reader_of_written below deeper) {}
  rw [reader, Record.open?_table inside written.once, Option.bind_eq_bind, Option.bind_some, proxy,
    hostsFile, boilerplate,
    Record.withDefault_of_follows written.outputPath Reader.text_follows,
    Record.withDefault_of_follows written.clientMaxBodySize Reader.text_follows,
    Record.withDefault_of_follows written.index Reader.text_follows,
    Record.withDefault_of_follows written.maxRouteDepth (Reader.natural_follows _)]
  rfl

theorem ofJson_of_written {overlay : Overlay} {fields : List (String × Value)}
    (written : overlay.WrittenIn fields) {text : String}
    (read : Json.read? text = some (.table fields)) :
    ofJson text = .ok (overlay.apply {}) := by
  have settings : reader .json (.table fields) = some (overlay.apply {}) :=
    reader_of_written written rfl rfl
  rw [ofJson, read, Option.bind_some, settings]
  rfl

theorem ofToml_of_written {overlay : Overlay} {fields : List (String × Value)}
    (written : overlay.WrittenIn fields) {text : String}
    (read : Toml.read? text = some (.table fields)) :
    ofToml text = .ok (overlay.apply {}) := by
  have settings : reader .toml (.table fields) = some (overlay.apply {}) :=
    reader_of_written written rfl rfl
  rw [ofToml, read, Option.bind_some, settings]
  rfl

/-- A document with some of the settings is read as the defaults with just these replaced, and
every such document that can be written is read so.  Whether a section is absent, empty or the
default makes no difference. -/
theorem partial_settings_overlay_defaults {overlay : Overlay} {fields : List (String × Value)}
    (written : overlay.WrittenIn fields) :
    (∀ text, Json.read? text = some (.table fields) → ofJson text = .ok (overlay.apply {})) ∧
    (∀ text, Toml.read? text = some (.table fields) → ofToml text = .ok (overlay.apply {})) ∧
    (Json.Writable (.table fields) →
      ofJson (Json.write (.table fields)) = .ok (overlay.apply {})) ∧
    ((fields.map Prod.fst).Nodup →
      (∀ field ∈ fields, Toml.Writable (Toml.limit - 1) field.2) →
      ofToml (Toml.write fields) = .ok (overlay.apply {})) ∧
    (∀ proxy ∈ [none, some {}, some (ProxySettings.Overlay.whole {})],
      ({ overlay with proxy } : Overlay).apply {} = { overlay.apply {} with proxy := {} }) ∧
    (∀ hostsFile ∈ [none, some {}, some (HostsFileSettings.Overlay.whole {})],
      ({ overlay with hostsFile } : Overlay).apply {} =
        { overlay.apply {} with hostsFile := {} }) ∧
    (∀ boilerplate ∈ [none, some {}, some (Boilerplate.Overlay.whole {})],
      ({ overlay with boilerplate } : Overlay).apply {} =
        { overlay.apply {} with boilerplate := {} }) := by
  refine ⟨fun text read => ofJson_of_written written read,
    fun text read => ofToml_of_written written read,
    fun writable => ofJson_of_written written (Json.read?_write writable),
    fun distinct writable => ofToml_of_written written (Toml.read?_write distinct writable),
    ?_, ?_, ?_⟩
  -- Of each section the absent, the empty and the default one.
  all_goals
    simp only [List.forall_mem_cons, List.not_mem_nil, false_implies, implies_true, and_true]
    exact ⟨rfl, rfl, rfl⟩

theorem partial_settings_overlay_defaults_shuffled :
    ofJson (Json.write (.table [
        ("boilerplate", .table [
          ("gzip_disable", .null), ("theme", .array [.null]), ("user", .text "www")]),
        ("port", .integer 1), ("hosts_file", .table []), ("port", .text "none"),
        ("proxy", .table [("port", .integer 8080)]), ("index", .text "start.html")])) =
      .ok {
        index := "start.html", proxy := { port := 8080 },
        boilerplate := { user := some "www", gzipDisable := none } } ∧
    ofToml (Toml.write [
        ("port", .integer 1), ("hosts_file", .table [("path", .text "/tmp/hosts")]),
        ("max_route_depth", .integer 3)]) =
      .ok { hostsFile := { path := "/tmp/hosts" }, maxRouteDepth := 3 } := by
  have inJson : ({
      index := some "start.html", proxy := some { port := some 8080 }, hostsFile := some {},
      boilerplate := some { user := some (some "www"), gzipDisable := some none } } :
        Overlay).WrittenIn [
        ("boilerplate", .table [
          ("gzip_disable", .null), ("theme", .array [.null]), ("user", .text "www")]),
        ("port", .integer 1), ("hosts_file", .table []), ("port", .text "none"),
        ("proxy", .table [("port", .integer 8080)]), ("index", .text "start.html")] :=
    { outputPath := rfl
      proxy := ⟨_, rfl, _, rfl, { address := rfl, port := ⟨_, rfl, rfl⟩ }⟩
      clientMaxBodySize := rfl
      index := ⟨_, rfl, rfl⟩
      hostsFile := ⟨_, rfl, _, rfl, { manage := rfl, path := rfl }⟩
      maxRouteDepth := rfl
      boilerplate := ⟨_, rfl, _, rfl,
        { user := ⟨_, rfl, rfl⟩, workerProcesses := rfl, pid := rfl, workerConnections := rfl
          sendfile := rfl, tcpNopush := rfl, tcpNodelay := rfl, keepaliveTimeout := rfl
          typesHashMaxSize := rfl, mimeTypes := rfl, defaultType := rfl, accessLog := rfl
          errorLog := rfl, gzip := rfl, gzipDisable := ⟨_, rfl, rfl⟩ }⟩ }
  have inToml : ({
      hostsFile := some { path := some "/tmp/hosts" }, maxRouteDepth := some 3 } :
        Overlay).WrittenIn [
        ("port", .integer 1), ("hosts_file", .table [("path", .text "/tmp/hosts")]),
        ("max_route_depth", .integer 3)] :=
    { outputPath := rfl
      proxy := rfl
      clientMaxBodySize := rfl
      index := rfl
      hostsFile := ⟨_, rfl, _, rfl, { manage := rfl, path := ⟨_, rfl, rfl⟩ }⟩
      maxRouteDepth := ⟨_, rfl, by decide, rfl⟩
      boilerplate := rfl }
  constructor
  · apply (partial_settings_overlay_defaults inJson).2.2.1
    simp only [Json.writable_table, Json.writable_array, List.forall_mem_cons, List.not_mem_nil,
      false_implies, implies_true, and_true]
    exact ⟨⟨.null, .null, .text _⟩, .integer (by decide) (by decide), trivial, .text _,
      .integer (by decide) (by decide), .text _⟩
  · apply (partial_settings_overlay_defaults inToml).2.2.2.1 (by decide)
    have hosts : Toml.Writable (Toml.limit - 1) (.table [("path", .text "/tmp/hosts")]) :=
      .table (by decide) (List.forall_mem_singleton.mpr (.text _ _))
    simp only [List.forall_mem_cons, List.not_mem_nil, false_implies, implies_true, and_true]
    exact ⟨.integer (by decide) (by decide), hosts, .integer (by decide) (by decide)⟩

end Settings

end VirtualHosts
