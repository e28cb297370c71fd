import Graft.CommandLine

/-!
# Graft.CommandLine.Help

The texts of help.
-/

namespace Graft
namespace CommandLine

/-- The name of the program. -/
def programName : String := "krmctl"

/-- The version of the program. -/
def version : String := programName ++ " 0.0.0\n"

/-- The option for the format, in help. -/
def outputHelp : String :=
  "  -o, --output <OUTPUT>  Output format [default: yaml] [possible values: yaml, json]\n"

/-- The option for help, in help. -/
def helpHelp : String := "  -h, --help             Print help\n"

/-- The operands, in help. -/
def inputsHelp : String :=
  "Arguments:\n  [INPUTS]...  Input manifests; none or \"-\" reads stdin\n"

/-- How a command is used. -/
def usage : Topic → String
  | .program => "Usage: krmctl [OPTIONS] <COMMAND>\n"
  | .replace => "Usage: krmctl replace [OPTIONS] --config <CONFIG> [INPUTS]...\n"
  | .ids => "Usage: krmctl ids [OPTIONS] [INPUTS]...\n"
  | .help => "Usage: krmctl help [COMMAND]\n"

/-- Help about a topic; `config` is the configuration to use if none is given. -/
def help (config : Option String) : Topic → String
  | .program =>
    "Copy field values between KRM documents\n\n" ++ usage .program
      ++ "\nCommands:\n"
      ++ "  replace  Apply the replacements in a config file to a manifest stream\n"
      ++ "  ids      Print the identity each input document is selected by\n"
      ++ "  help     Print this message or the help of the given subcommand(s)\n"
      ++ "\nOptions:\n" ++ outputHelp ++ helpHelp
      ++ "  -V, --version          Print version\n"
  | .replace =>
    "Apply the replacements in a config file to a manifest stream\n\n" ++ usage .replace
      ++ "\n" ++ inputsHelp ++ "\nOptions:\n"
      ++ "  -c, --config <CONFIG>  Config file with a `replacements:` list "
      ++ "(a kustomization works) [env: KRM_CONFIG=" ++ config.getD "" ++ "]\n"
      ++ outputHelp ++ helpHelp
  | .ids =>
    "Print the identity each input document is selected by\n\n" ++ usage .ids
      ++ "\n" ++ inputsHelp ++ "\nOptions:\n" ++ outputHelp ++ helpHelp
  | .help =>
    "Print this message or the help of the given subcommand(s)\n\n" ++ usage .help
      ++ "\nArguments:\n  [COMMAND]...  Print help for the subcommand(s)\n"

end CommandLine
end Graft
