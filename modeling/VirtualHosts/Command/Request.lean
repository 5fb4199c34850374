/-
What the program is asked to do.
-/

import VirtualHosts.Command.Help

namespace VirtualHosts.Command

structure Sources where
  manifest : String := defaultManifest
  /-- A settings file that takes the place of the settings in the manifest. -/
  settings : Option String := none
  deriving DecidableEq, Repr

structure Overrides where
  output : Option String := none
  noHosts : Bool := false
  deriving DecidableEq, Repr

inductive Request where
  | compile (sources : Sources) (overrides : Overrides)
  | serve (sources : Sources) (overrides : Overrides)
  | validate (sources : Sources) (print : Bool)
  | version
  | printText (text : String)
  deriving DecidableEq, Repr

namespace Request

def sourcesOf (scan : Scan) : Sources :=
  { manifest := scan.manifest.getD defaultManifest, settings := scan.value? settingsOption }

def overridesOf (scan : Scan) : Overrides :=
  { output := scan.value? outputOption, noHosts := scan.has noHostsOption }

def ofScan (topic : Topic) (scan : Scan) : Request :=
  match topic with
  | .compile => .compile (sourcesOf scan) (overridesOf scan)
  | .serve => .serve (sourcesOf scan) (overridesOf scan)
  | .validate => .validate (sourcesOf scan) (scan.has printOption)
  | .version => .version

def ofStop (help : String) : Stop → Except UsageError Request
  | .help => .ok (.printText help)
  | .version => .ok (.printText (programName ++ " " ++ programVersion ++ "\n"))
  | .usage error => .error error

/-- The help asked for by the names after `help`.  No command has commands of its
own. -/
def helpFor : List String → Except UsageError Request
  | [] => .ok (.printText mainHelp)
  | name :: rest =>
      let text? := if name = helpCommand then some helpHelp
        else (Topic.ofName? name).map Topic.help
      match text?, rest with
      | none, _ => .error (.unknownCommand name)
      | some text, [] => .ok (.printText text)
      | some _, other :: _ => .error (.unknownCommand other)

def isDashed (argument : String) : Bool :=
  match argument.toList with
  | '-' :: _ :: _ => true
  | _ => false

/-- Reads the arguments of the program: options of its own, then the name of a
command, then what that command takes. -/
def ofArguments (arguments : List String) : Except UsageError Request :=
  match Scan.arguments .main (arguments.takeWhile isDashed) with
  | .error stop => ofStop mainHelp stop
  | .ok scan =>
      match arguments.dropWhile isDashed with
      | [] => .error .missingCommand
      | name :: rest =>
          if scan.positional then .error (.unexpectedArgument name)
          else if name = helpCommand then helpFor rest
          else
            match Topic.ofName? name with
            | none => .error (.unknownCommand name)
            | some topic =>
                match Scan.arguments topic.grammar rest with
                | .error stop => ofStop topic.help stop
                | .ok scan => .ok (ofScan topic scan)

end Request

end VirtualHosts.Command
