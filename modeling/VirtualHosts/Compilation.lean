/-
Compilation of an application: the configuration of the web server, and the
registrations of the endpoints that the process answers.

One walk over the hosts does both.  Within a host the base comes first; its
middleware stays in force for the routes after it, while the middleware of a
route ends with the route.
-/

import VirtualHosts.Application
import VirtualHosts.Nginx.Rendering
import VirtualHosts.Registration
import VirtualHosts.Settings

namespace VirtualHosts

/-- The beginning of the paths that a pathname is about, as the web server
writes it: without a star at the end, and never empty. -/
def locationChars (pathname : List Char) : List Char :=
  if pathname = [] ∨ pathname = ['*'] then ['/']
  else
    match Text.dropLast? '*' pathname with
    | some [] => ['/']
    | some beginning => beginning
    | none => pathname

def locationPath (pathname : String) : String :=
  .ofList (locationChars pathname.toList)

structure Walk (α : Type) where
  server : Nginx.Clause
  /-- The serving mode of every location of that block, the latest first. -/
  emitted : List (String × ServingMode) := []
  /-- The middleware in force, in the order in which it was met. -/
  middleware : List (Middleware α) := []
  backend : Option (List (Registration α)) := none
  created : Nat := 0
  registered : Nat := 0

namespace Walk

variable {α : Type}

/-- The chain of an endpoint: the middleware in force that applies to it, then
its handler. -/
def chain (walk : Walk α) (pathname : String) (handler : α) : List α :=
  ((walk.middleware.filter (·.appliesTo pathname)).map Middleware.handler) ++ [handler]

/-- Registers an endpoint that the process answers, and creates the backend at
the first one.  Other endpoints are not registered. -/
def register (host : Host α) (endpoint : Endpoint α) (walk : Walk α) : Walk α :=
  match endpoint.handler? with
  | none => walk
  | some handler =>
      let registration : Registration α := {
        hostname := host.hostname
        port := host.options.port
        pathname := endpoint.pathname
        verbs := endpoint.verbs
        chain := walk.chain endpoint.pathname handler }
      match walk.backend with
      | some taken =>
          { walk with
            backend := some (taken ++ [registration]), registered := walk.registered + 1 }
      | none =>
          { walk with
            backend := some [registration], created := walk.created + 1
            registered := walk.registered + 1 }

def proxyDirectives (settings : Settings) : List (String × String) :=
  [("proxy_pass", settings.proxy.url),
    ("proxy_http_version", "1.1"),
    ("proxy_set_header", "Upgrade $http_upgrade"),
    ("proxy_set_header", "Connection 'upgrade'"),
    ("proxy_set_header", "Host $host"),
    ("proxy_set_header", portHeader ++ " $server_port"),
    ("proxy_set_header", "X-Forwarded-For $remote_addr")]

def locationDirectives (settings : Settings) (endpoint : Endpoint α) :
    List (String × String) :=
  match endpoint.mode with
  | .static => [("index", settings.index)]
  | .file =>
      [("index", settings.index),
        ("try_files", "/" ++ endpoint.fileName?.getD "" ++ " =404")]
  | .process => proxyDirectives settings

def addLocation (settings : Settings) (endpoint : Endpoint α) (walk : Walk α) : Walk α :=
  { walk with
    server := walk.server.location (locationPath endpoint.pathname) fun fresh =>
      (locationDirectives settings endpoint).foldl
        (fun location (name, value) => location.directive name value) fresh }

/-- Visits an endpoint.  A location may come twice only if the process answers it
both times; then it is written once, and both endpoints are registered. -/
def visitEndpoint (settings : Settings) (host : Host α) (endpoint : Endpoint α)
    (walk : Walk α) : Except CompilationError (Walk α) :=
  let path := locationPath endpoint.pathname
  let mode := endpoint.mode
  let done (walk : Walk α) : Walk α :=
    let walk := if mode = .process then walk.register host endpoint else walk
    { walk with emitted := (path, mode) :: walk.emitted }
  match walk.emitted.lookup path with
  | none => .ok (done (walk.addLocation settings endpoint))
  | some first =>
      if first = .process ∧ mode = .process then .ok (done walk)
      else .error (.conflictingLocation host.hostname path first.name mode.name)

mutual

def visitEntry (settings : Settings) (host : Host α) (depth : Nat) (walk : Walk α) :
    Entry α → Except CompilationError (Walk α)
  | .endpoint declared => walk.visitEndpoint settings host declared
  | .middleware declared =>
      .ok { walk with middleware := walk.middleware ++ [declared] }
  | .route pathname entries =>
      if settings.maxRouteDepth < depth + 1 then
        .error (.nestingTooDeep pathname settings.maxRouteDepth)
      else
        (visitEntries settings host (depth + 1) walk entries).map fun after =>
          { after with middleware := walk.middleware }

def visitEntries (settings : Settings) (host : Host α) (depth : Nat) (walk : Walk α) :
    List (Entry α) → Except CompilationError (Walk α)
  | [] => .ok walk
  | first :: rest =>
      match visitEntry settings host depth walk first with
      | .ok walk => visitEntries settings host depth walk rest
      | .error error => .error error

end

def visitHost (settings : Settings) (host : Host α) (walk : Walk α) :
    Except CompilationError (Walk α) := do
  let base ← walk.visitEntries settings host 0 host.base
  base.visitEntries settings host 0 (host.routes.map Route.toEntry)

end Walk

def globalDirectives (boilerplate : Boilerplate) (config : Nginx.Clause) : Nginx.Clause :=
  let config := match boilerplate.user with
    | some user => config.directive "user" user
    | none => config
  ((config.directive "worker_processes" boilerplate.workerProcesses).directive
      "pid" boilerplate.pid).clause "events" fun events =>
    events.directive "worker_connections" (toString boilerplate.workerConnections.toNat)

def httpDirectives (boilerplate : Boilerplate) (http : Nginx.Clause) : Nginx.Clause :=
  let directives := [
    ("sendfile", onOff boilerplate.sendfile),
    ("tcp_nopush", onOff boilerplate.tcpNopush),
    ("tcp_nodelay", onOff boilerplate.tcpNodelay),
    ("keepalive_timeout", toString boilerplate.keepaliveTimeout.toNat),
    ("types_hash_max_size", toString boilerplate.typesHashMaxSize.toNat),
    ("include", boilerplate.mimeTypes),
    ("default_type", boilerplate.defaultType),
    ("access_log", boilerplate.accessLog),
    ("error_log", boilerplate.errorLog),
    ("gzip", onOff boilerplate.gzip)] ++
    (boilerplate.gzipDisable.map fun value => ("gzip_disable", value)).toList
  directives.foldl (fun http (name, value) => http.directive name value) http

def serverDirectives {α : Type} (settings : Settings) (host : Host α)
    (server : Nginx.Clause) : Nginx.Clause :=
  let directives := [
    ("listen", toString host.options.port.toNat),
    ("server_name", host.hostname),
    ("client_max_body_size", settings.clientMaxBodySize)] ++
    (host.options.root.map fun root => ("root", root)).toList
  directives.foldl (fun server (name, value) => server.directive name value) server

structure Compilation (α : Type) where
  config : Nginx.Clause
  backend : Option (List (Registration α))
  /-- The different hostnames, in the order of their first declaration. -/
  aliases : List String
  registrations : Nat
  created : Nat

namespace Compilation

variable {α : Type}

def render (compilation : Compilation α) : String :=
  compilation.config.render

structure Progress (α : Type) where
  http : Nginx.Clause
  aliases : List String := []
  backend : Option (List (Registration α)) := none
  created : Nat := 0
  registered : Nat := 0

def Progress.visitHost (settings : Settings) (progress : Progress α) (host : Host α) :
    Except CompilationError (Progress α) := do
  let aliases :=
    if progress.aliases.contains host.hostname then progress.aliases
    else progress.aliases ++ [host.hostname]
  let walk ← Walk.visitHost settings host {
    server := serverDirectives settings host ⟨"server", progress.http.depth + 1, []⟩
    backend := progress.backend
    created := progress.created
    registered := progress.registered }
  return {
    http := progress.http.clause "server" fun _ => walk.server
    aliases
    backend := walk.backend
    created := walk.created
    registered := walk.registered }

/-- Compiles an application in memory.  The registrations are checked after the
whole walk. -/
def build (settings : Settings) (backend : Backend α) (app : Application α) :
    Except CompilationError (Compilation α) := do
  let config := globalDirectives settings.boilerplate .root
  let http := httpDirectives settings.boilerplate ⟨"http", config.depth + 1, []⟩
  let progress ← app.hosts.foldlM (Progress.visitHost settings) { http }
  match progress.backend with
  | none => pure ()
  | some registrations =>
      match backend.check registrations with
      | .ok () => pure ()
      | .error error => throw (.conflictingRoutes error)
  return {
    config := config.clause "http" fun _ => progress.http
    backend := progress.backend
    aliases := progress.aliases
    registrations := progress.registered
    created := progress.created }

end Compilation

end VirtualHosts
