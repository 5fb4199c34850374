/-
Reading settings from documents and files.  A field that is absent keeps its
default, at every level: the default of the field, or for the boilerplate what
the whole has in its place.
-/

import VirtualHosts.Document.Json
import VirtualHosts.Document.Reading
import VirtualHosts.Document.Toml
import VirtualHosts.Error
import VirtualHosts.FilePath
import VirtualHosts.Settings

namespace VirtualHosts

def Address.reader : Reader Address := fun allowance value =>
  (Reader.text allowance value).bind Address.read?

namespace ProxySettings

def fieldNames : List String := ["address", "port"]

def reader : Reader ProxySettings := fun allowance value => do
  let record ← Record.open? fieldNames allowance value
  return {
    address := ← record.withDefault "address" Address.reader defaultAddress
    port := ← record.withDefault "port" Reader.port defaultPort }

end ProxySettings

namespace HostsFileSettings

def fieldNames : List String := ["manage", "path"]

def reader : Reader HostsFileSettings := fun allowance value => do
  let record ← Record.open? fieldNames allowance value
  return {
    manage := ← record.withDefault "manage" Reader.flag defaultManage
    path := ← record.withDefault "path" Reader.text defaultPath }

end HostsFileSettings

namespace Boilerplate

def fieldNames : List String :=
  ["user", "worker_processes", "pid", "worker_connections", "sendfile", "tcp_nopush",
    "tcp_nodelay", "keepalive_timeout", "types_hash_max_size", "mime_types", "default_type",
    "access_log", "error_log", "gzip", "gzip_disable"]

def reader : Reader Boilerplate := fun allowance value => do
  let record ← Record.open? fieldNames allowance value
  let default : Boilerplate := {}
  return {
    user := ← record.withDefault "user" (Reader.optional Reader.text) default.user
    workerProcesses :=
      ← record.withDefault "worker_processes" Reader.text default.workerProcesses
    pid := ← record.withDefault "pid" Reader.text default.pid
    workerConnections :=
      ← record.withDefault "worker_connections" Reader.word default.workerConnections
    sendfile := ← record.withDefault "sendfile" Reader.flag default.sendfile
    tcpNopush := ← record.withDefault "tcp_nopush" Reader.flag default.tcpNopush
    tcpNodelay := ← record.withDefault "tcp_nodelay" Reader.flag default.tcpNodelay
    keepaliveTimeout :=
      ← record.withDefault "keepalive_timeout" Reader.word default.keepaliveTimeout
    typesHashMaxSize :=
      ← record.withDefault "types_hash_max_size" Reader.word default.typesHashMaxSize
    mimeTypes := ← record.withDefault "mime_types" Reader.text default.mimeTypes
    defaultType := ← record.withDefault "default_type" Reader.text default.defaultType
    accessLog := ← record.withDefault "access_log" Reader.text default.accessLog
    errorLog := ← record.withDefault "error_log" Reader.text default.errorLog
    gzip := ← record.withDefault "gzip" Reader.flag default.gzip
    gzipDisable :=
      ← record.withDefault "gzip_disable" (Reader.optional Reader.text) default.gzipDisable }

end Boilerplate

namespace Settings

def fieldNames : List String :=
  ["output_path", "proxy", "client_max_body_size", "index", "hosts_file", "max_route_depth",
    "boilerplate"]

def reader : Reader Settings := fun allowance value => do
  let record ← Record.open? fieldNames allowance value
  return {
    outputPath := ← record.withDefault "output_path" Reader.text defaultOutputPath
    proxy := ← record.withDefault "proxy" ProxySettings.reader {}
    clientMaxBodySize := ← record.withDefault "client_max_body_size" Reader.text defaultBodySize
    index := ← record.withDefault "index" Reader.text defaultIndex
    hostsFile := ← record.withDefault "hosts_file" HostsFileSettings.reader {}
    maxRouteDepth :=
      ← record.withDefault "max_route_depth" (Reader.natural (Nat.pow 2 64)) defaultMaxRouteDepth
    boilerplate := ← record.withDefault "boilerplate" Boilerplate.reader {} }

def orElse {β : Type} (error : ConfigError) : Option β → Except ConfigError β
  | some value => .ok value
  | none => .error error

def ofJsonValue (value : Value) : Except ConfigError Settings :=
  orElse .invalidJson (reader .json value)

def ofJson (text : String) : Except ConfigError Settings :=
  orElse .invalidJson ((Json.read? text).bind (reader .json))

def ofToml (text : String) : Except ConfigError Settings :=
  orElse .invalidToml ((Toml.read? text).bind (reader .toml))

/-- Settings from a file, given its name and what it holds.  The extension of the
name tells the notation. -/
def ofFile (name : String) (content : Except FileError String) :
    Except ConfigError Settings :=
  match content with
  | .error error => .error (.unreadSettings name error)
  | .ok text =>
      match (FilePath.extension? name).getD "" with
      | "json" => ofJson text
      | "toml" => ofToml text
      | extension => .error (.unknownFormat extension)

end Settings

end VirtualHosts
