import DashCalc.Command.Arguments

/-!
# Help for the command line

What is printed about the program and its commands. Only the command that prints in several formats
has a longer text, which says more about these.
-/

namespace DashCalc.Command

def versionLine : String := "calcscope 0.1.0"

/-- The option of every command that names the settings, with that many more blanks between its
name and what it does. -/
def configOption (gap : String) : String :=
  "  -c, --config <CONFIG>" ++ gap ++ "  Path to a TOML config file (overrides the default search)"

/-- The option of every command that asks for more output, likewise. -/
def verboseOption (gap : String) : String :=
  "  -v, --verbose        " ++ gap ++ "  Enable debug logging"

/-- What a command about a formula is told with. -/
def formulaHelp (about command : String) : List String := [
  about,
  "",
  "Usage: calcscope " ++ command ++ " [OPTIONS] <EXPRESSION>",
  "",
  "Arguments:",
  "  <EXPRESSION>  DSL expression",
  "",
  "Options:",
  configOption "",
  verboseOption "",
  "  -h, --help             Print help"]

/-- The longer text about printing a hierarchy. -/
def longAnalyzeHelp : List String := [
  "Build the request hierarchy from captured request bundles",
  "",
  "Usage: calcscope analyze [OPTIONS] <FILE>",
  "",
  "Arguments:",
  "  <FILE>",
  "          JSON file holding one bundle or an array of bundles",
  "",
  "Options:",
  "  -c, --config <CONFIG>",
  "          Path to a TOML config file (overrides the default search)",
  "",
  "  -f, --format <FORMAT>",
  "          Output format",
  "",
  "          Possible values:",
  "          - tree:    Indented tree with per-node metrics",
  "          - summary: Counts and tagged requests only",
  "          - json:    Full hierarchy as JSON",
  "          ",
  "          [default: tree]",
  "",
  "  -v, --verbose",
  "          Enable debug logging",
  "",
  "  -h, --help",
  "          Print help (see a summary with '-h')"]

/-- The text about a topic. -/
def Topic.help (long : Bool) : Topic → List String
  | program => [
      "calcscope - cost and dependency analysis for dashboard calculations",
      "",
      "Usage: calcscope [OPTIONS] <COMMAND>",
      "",
      "Commands:",
      "  preprocess    Print the SQL a DSL expression is rewritten to",
      "  analyze-expr  Parse and cost a single DSL expression, printed as JSON",
      "  analyze       Build the request hierarchy from captured request bundles",
      "  chain         Print the dependency chain of one expression in one request",
      "  help          Print this message or the help of the given subcommand(s)",
      "",
      "Options:",
      configOption "",
      verboseOption "",
      "  -h, --help             Print help",
      "  -V, --version          Print version"]
  | preprocess => formulaHelp "Print the SQL a DSL expression is rewritten to" "preprocess"
  | analyzeFormula =>
    formulaHelp "Parse and cost a single DSL expression, printed as JSON" "analyze-expr"
  | analyze =>
    if long then longAnalyzeHelp
    else [
      "Build the request hierarchy from captured request bundles",
      "",
      "Usage: calcscope analyze [OPTIONS] <FILE>",
      "",
      "Arguments:",
      "  <FILE>  JSON file holding one bundle or an array of bundles",
      "",
      "Options:",
      configOption "",
      "  -f, --format <FORMAT>  Output format [default: tree] " ++
        "[possible values: tree, summary, json]",
      verboseOption "",
      "  -h, --help             Print help (see more with '--help')"]
  | chain => [
      "Print the dependency chain of one expression in one request",
      "",
      "Usage: calcscope chain [OPTIONS] --request <REQUEST> --alias <ALIAS> <FILE>",
      "",
      "Arguments:",
      "  <FILE>  JSON file holding one bundle or an array of bundles",
      "",
      "Options:",
      configOption "  ",
      "  -r, --request <REQUEST>  Request id",
      "  -a, --alias <ALIAS>      Expression alias",
      verboseOption "  ",
      "  -h, --help               Print help"]
  | helpCommand => [
      "Print this message or the help of the given subcommand(s)",
      "",
      "Usage: calcscope help [COMMAND]...",
      "",
      "Arguments:",
      "  [COMMAND]...  Print help for the subcommand(s)"]

end DashCalc.Command
