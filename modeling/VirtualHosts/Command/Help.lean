/-
The help texts: what a command is about, how it is used, and its options in two
columns.
-/

import VirtualHosts.Command.Grammar

namespace VirtualHosts.Command

def programName : String := "panela"

def programVersion : String := "0.1.6"

def programAbout : String :=
  "Compile declared hosts and routes into an nginx configuration"

def helpCommand : String := "help"

def helpCommandAbout : String :=
  "Print this message or the help of the given subcommand(s)"

def defaultManifest : String := "panela.toml"

def columns (heading : String) (rows : List (String × String)) : List String :=
  if rows.isEmpty then []
  else
    let width := (rows.map (·.1.length)).foldl max 0
    [heading ++ ":\n" ++ String.join (rows.map fun (left, right) =>
      "  " ++ left.pushn ' ' (width - left.length) ++ "  " ++ right ++ "\n")]

def OptionSpec.row (option : OptionSpec) : String × String :=
  let short := match option.short with
    | some c => String.ofList ['-', c, ',', ' ']
    | none => "    "
  let value := match option.value with
    | some name => " <" ++ name ++ ">"
    | none => ""
  (short ++ "--" ++ option.long ++ value, option.help)

def page (about usage : String) (sections : List String) : String :=
  "\n".intercalate ((about ++ "\n") :: ("Usage: " ++ usage ++ "\n") :: sections)

def mainHelp : String :=
  page programAbout (programName ++ " [OPTIONS] <COMMAND>")
    (columns "Commands"
        (Topic.all.map (fun topic => (topic.name, topic.about)) ++
          [(helpCommand, helpCommandAbout)]) ++
      columns "Options" (Grammar.main.options.map OptionSpec.row))

def Topic.help (topic : Topic) : String :=
  let manifest := topic.grammar.manifest
  page topic.about
    (programName ++ " " ++ topic.name ++ " [OPTIONS]" ++
      if manifest then " [MANIFEST]" else "")
    (columns "Arguments"
        (if manifest then
          [("[MANIFEST]",
            "Path to the manifest (TOML or JSON) [default: " ++ defaultManifest ++ "]")]
        else []) ++
      columns "Options" (topic.grammar.options.map OptionSpec.row))

def helpHelp : String :=
  page helpCommandAbout (programName ++ " " ++ helpCommand ++ " [COMMAND]...")
    (columns "Arguments" [("[COMMAND]...", "Print help for the subcommand(s)")])

end VirtualHosts.Command
