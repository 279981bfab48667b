import ClosureLint.Command.Arguments

/-! What the program says of itself and of its commands. -/

namespace ClosureLint

namespace Command

def versionLine : String := "brevity 0.3.0"

def configHelp : String :=
  "      --config <CONFIG>  Optional config file (TOML only). Default: .brevity.toml if present"

def helpLines : Option CommandName → List String
  | none =>
    ["Closure body length linter",
      "",
      "Usage: brevity <COMMAND>",
      "",
      "Commands:",
      "  lint   Lint files/directories once and exit",
      "  rules  List rules with their effective thresholds",
      "  init   Write a default .brevity.toml",
      "  help   Print this message or the help of the given subcommand(s)",
      "",
      "Options:",
      "  -h, --help     Print help",
      "  -V, --version  Print version"]
  | some .lint =>
    ["Lint files/directories once and exit",
      "",
      "Usage: brevity lint [OPTIONS] <PATHS>...",
      "",
      "Arguments:",
      "  <PATHS>...  Files or directories to lint",
      "",
      "Options:",
      configHelp,
      "      --json             Output JSON instead of human format",
      "      --strict           Fail on warnings too",
      "      --highest-only     Report only the most severe violation per closure",
      "  -h, --help             Print help"]
  | some .rules =>
    ["List rules with their effective thresholds",
      "",
      "Usage: brevity rules [OPTIONS]",
      "",
      "Options:",
      configHelp,
      "      --json             Output JSON instead of a table",
      "  -h, --help             Print help"]
  | some .init =>
    ["Write a default .brevity.toml",
      "",
      "Usage: brevity init [OPTIONS] [PATH]",
      "",
      "Arguments:",
      "  [PATH]  Directory to write .brevity.toml into [default: .]",
      "",
      "Options:",
      "      --force  Overwrite an existing .brevity.toml",
      "  -h, --help   Print help"]

end Command

end ClosureLint
