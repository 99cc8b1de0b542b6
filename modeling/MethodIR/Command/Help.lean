import MethodIR.Command.Arguments

/-! What the command says about itself. -/
namespace MethodIR.Command

def version : String := "garnet 0.1.0\n"

/-- The lines on a topic: what it does, how it is called, and what can be given. -/
def Topic.lines : Topic → List String
  | .program =>
    ["Garnet IR method-scope inspector", "",
      "Usage: garnet <COMMAND>", "",
      "Commands:",
      "  dump  Build the method bodies described in a JSON file and dump their scopes",
      "  help  Print this message or the help of the given subcommand(s)", "",
      "Options:",
      "  -h, --help     Print help",
      "  -V, --version  Print version"]
  | .dump =>
    ["Build the method bodies described in a JSON file and dump their scopes", "",
      "Usage: garnet dump [OPTIONS] <FILE>", "",
      "Arguments:",
      "  <FILE>  Path to the unit description (.json)", "",
      "Options:",
      "  -o, --output <OUTPUT>  Output path (default: stdout)",
      "      --format <FORMAT>  Output format [default: text] [possible values: text, json]",
      "      --config <CONFIG>  Config file (default: nearest garnet.toml)",
      "      --ir-gen-only      Do not back-link static scopes",
      "  -h, --help             Print help"]
  | .help =>
    ["Print this message or the help of the given subcommand(s)", "",
      "Usage: garnet help [COMMAND]...", "",
      "Arguments:",
      "  [COMMAND]...  Print help for the subcommand(s)"]

def Topic.text (t : Topic) : String := String.join (t.lines.map (· ++ "\n"))

end MethodIR.Command
