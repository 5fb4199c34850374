/-
Settings of a compilation.  Every constant of the configuration that is written
stands here, so that a settings file can replace it.

What a settings file leaves out of the settings, the proxy and the hosts file is
named field by field; the boilerplate has its defaults as a whole.
-/

import VirtualHosts.Address

namespace VirtualHosts

abbrev ProxySettings.defaultAddress : Address := .v4 127 0 0 1

abbrev ProxySettings.defaultPort : UInt16 := 3000

structure ProxySettings where
  address : Address := ProxySettings.defaultAddress
  port : UInt16 := ProxySettings.defaultPort
  deriving DecidableEq, Repr

namespace ProxySettings

def socketAddress (proxy : ProxySettings) : String :=
  proxy.address.withPort proxy.port

def url (proxy : ProxySettings) : String :=
  "http://" ++ proxy.socketAddress

end ProxySettings

/-- Whether a hosts file is managed if nothing is said about it. -/
abbrev HostsFileSettings.defaultManage : Bool := true

abbrev HostsFileSettings.defaultPath : String := "/etc/hosts"

structure HostsFileSettings where
  /-- Whether every declared hostname gets an alias of the own machine. -/
  manage : Bool := true
  path : String := HostsFileSettings.defaultPath
  deriving DecidableEq, Repr

structure Boilerplate where
  user : Option String := none
  workerProcesses : String := "4"
  pid : String := "/run/nginx.pid"
  workerConnections : UInt32 := 768
  sendfile : Bool := true
  tcpNopush : Bool := true
  tcpNodelay : Bool := true
  keepaliveTimeout : UInt32 := 65
  typesHashMaxSize : UInt32 := 2048
  mimeTypes : String := "/etc/nginx/mime.types"
  defaultType : String := "application/octet-stream"
  accessLog : String := "/var/log/nginx/access.log"
  errorLog : String := "/var/log/nginx/error.log"
  gzip : Bool := true
  gzipDisable : Option String := some "msie6"
  deriving DecidableEq, Repr

abbrev Settings.defaultOutputPath : String := "./panela-nginx.conf"

abbrev Settings.defaultBodySize : String := "50M"

abbrev Settings.defaultIndex : String := "index.html"

abbrev Settings.defaultMaxRouteDepth : Nat := 64

structure Settings where
  outputPath : String := Settings.defaultOutputPath
  proxy : ProxySettings := {}
  clientMaxBodySize : String := Settings.defaultBodySize
  /-- The index file of every location that the web server answers itself. -/
  index : String := Settings.defaultIndex
  hostsFile : HostsFileSettings := {}
  /-- How deep routes may be nested. -/
  maxRouteDepth : Nat := Settings.defaultMaxRouteDepth
  boilerplate : Boilerplate := {}
  deriving DecidableEq, Repr

def onOff (flag : Bool) : String :=
  if flag then "on" else "off"

end VirtualHosts
