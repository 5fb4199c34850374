/-
The arguments that each command takes, and how a row of arguments is scanned.

Long options follow two dashes and short ones, several at once, a single dash.
After two dashes alone everything is a positional argument.  Scanning goes from
left to right and stops at the first error or request for help.
-/

import VirtualHosts.Text

namespace VirtualHosts.Command

structure OptionSpec where
  long : String
  short : Option Char := none
  value : Option String := none
  help : String
  deriving DecidableEq, Repr

inductive Topic where
  | compile
  | serve
  | validate
  | version
  deriving DecidableEq, Repr

namespace Topic

def all : List Topic := [compile, serve, validate, version]

def name : Topic → String
  | compile => "compile"
  | serve => "serve"
  | validate => "validate"
  | version => "version"

def ofName? (name : String) : Option Topic :=
  all.find? (·.name == name)

def about : Topic → String
  | compile => "Compile a manifest and write the nginx configuration"
  | serve => "Compile a manifest, then serve its process endpoints until Ctrl-C"
  | validate => "Check a manifest without writing anything"
  | version => "Show version information"

end Topic

structure Grammar where
  options : List OptionSpec
  manifest : Bool
  deriving DecidableEq, Repr

def verboseOption : OptionSpec :=
  { long := "verbose", short := some 'v', help := "Enable verbose logging" }

def helpOption : OptionSpec :=
  { long := "help", short := some 'h', help := "Print help" }

def versionOption : OptionSpec :=
  { long := "version", short := some 'V', help := "Print version" }

def settingsOption : OptionSpec :=
  { long := "settings", short := some 's', value := some "SETTINGS",
    help := "Settings file overriding the manifest settings" }

def outputOption : OptionSpec :=
  { long := "output", short := some 'o', value := some "OUTPUT",
    help := "Where to write the nginx configuration" }

def noHostsOption : OptionSpec :=
  { long := "no-hosts", help := "Do not touch the hosts file" }

def printOption : OptionSpec :=
  { long := "print", help := "Print the rendered configuration" }

def Grammar.main : Grammar :=
  ⟨[verboseOption, helpOption, versionOption], false⟩

def Topic.grammar : Topic → Grammar
  | compile | serve =>
      ⟨[settingsOption, verboseOption, outputOption, noHostsOption, helpOption], true⟩
  | validate => ⟨[settingsOption, verboseOption, printOption, helpOption], true⟩
  | version => ⟨[verboseOption, helpOption], false⟩

inductive UsageError where
  | unexpectedArgument (argument : String)
  | unknownCommand (name : String)
  | missingCommand
  | missingValue (option : String)
  | unneededValue (option : String)
  | emptyValue
  | repeatedOption (option : String)
  deriving DecidableEq, Repr

def UsageError.message : UsageError → String
  | unexpectedArgument argument => s!"unexpected argument '{argument}' found"
  | unknownCommand name => s!"unrecognized subcommand '{name}'"
  | missingCommand => "a subcommand is required but was not given"
  | missingValue option => s!"a value is required for '--{option}' but none was supplied"
  | unneededValue option => s!"no value is expected for '--{option}'"
  | emptyValue => "a value is required but an empty one was supplied"
  | repeatedOption option => s!"the argument '--{option}' cannot be used multiple times"

inductive Stop where
  | help
  | version
  | usage (error : UsageError)
  deriving DecidableEq, Repr

structure Scan where
  given : List (String × String) := []
  manifest : Option String := none
  waiting : Option String := none
  positional : Bool := false
  deriving DecidableEq, Repr

namespace Scan

def take (scan : Scan) (long value : String) : Except Stop Scan :=
  if scan.given.any (·.1 == long) then .error (.usage (.repeatedOption long))
  else .ok { scan with given := scan.given ++ [(long, value)], waiting := none }

/-- Takes an option with its value, which is never empty. -/
def takeValue (scan : Scan) (long value : String) : Except Stop Scan :=
  if value.isEmpty then .error (.usage .emptyValue) else scan.take long value

def takeFlag (scan : Scan) (option : OptionSpec) : Except Stop Scan :=
  if option = helpOption then .error .help
  else if option = versionOption then .error .version
  else scan.take option.long ""

def takePositional (grammar : Grammar) (scan : Scan) (argument : String) : Except Stop Scan :=
  match scan.waiting with
  | some long => .error (.usage (.missingValue long))
  | none =>
      if grammar.manifest ∧ scan.manifest = none then
        if argument.isEmpty then .error (.usage .emptyValue)
        else .ok { scan with manifest := some argument }
      else
        .error (.usage (.unexpectedArgument argument))

/-- A long option, written after two dashes; a value may follow an equals sign. -/
def long (grammar : Grammar) (scan : Scan) (chars : List Char) : Except Stop Scan :=
  let name := String.ofList (chars.takeWhile (· != '='))
  match grammar.options.find? (·.long == name), chars.dropWhile (· != '=') with
  | none, _ => .error (.usage (.unexpectedArgument ("--" ++ .ofList chars)))
  | some option, [] =>
      if option.value.isSome then .ok { scan with waiting := some option.long }
      else scan.takeFlag option
  | some option, _ :: value =>
      if option.value.isSome then scan.takeValue option.long (.ofList value)
      else .error (.usage (.unneededValue option.long))

/-- Short options, written after one dash.  What follows one with a value is that
value, and an equals sign in front of it is left out. -/
def short (grammar : Grammar) (scan : Scan) : List Char → Except Stop Scan
  | [] => .ok scan
  | c :: rest =>
      match grammar.options.find? (·.short == some c) with
      | none => .error (.usage (.unexpectedArgument (.ofList ['-', c])))
      | some option =>
          if option.value.isSome then
            match rest with
            | [] => .ok { scan with waiting := some option.long }
            | '=' :: value | value => scan.takeValue option.long (.ofList value)
          else do
            (← scan.takeFlag option).short grammar rest

def step (grammar : Grammar) (scan : Scan) (argument : String) : Except Stop Scan :=
  if scan.positional then
    takePositional grammar scan argument
  else
    match argument.toList, scan.waiting with
    | ['-', '-'], _ => .ok { scan with positional := true }
    | '-' :: _ :: _, some long => .error (.usage (.missingValue long))
    | '-' :: '-' :: name, none => long grammar scan name
    | '-' :: c :: rest, none => short grammar scan (c :: rest)
    | _, some long => scan.takeValue long argument
    | _, none => takePositional grammar scan argument

def arguments (grammar : Grammar) (arguments : List String) : Except Stop Scan := do
  let scan ← arguments.foldlM (step grammar) {}
  match scan.waiting with
  | some long => throw (.usage (.missingValue long))
  | none => return scan

def has (scan : Scan) (option : OptionSpec) : Bool :=
  scan.given.any (·.1 == option.long)

def value? (scan : Scan) (option : OptionSpec) : Option String :=
  scan.given.lookup option.long

end Scan

end VirtualHosts.Command
