import ClosureLint.Files.Path

/-! The command line. Options and operands may come in any order behind the name of the command;
behind `--` everything is an operand. Reading stops at the first argument that settles the matter:
a wish for help or for the version, or one that is out of place. -/

namespace ClosureLint

inductive CommandName where
  | lint
  | rules
  | init
  deriving DecidableEq, Repr

structure LintArguments where
  paths : List Path
  config : Option Path
  json : Bool
  strict : Bool
  highestOnly : Bool
  deriving DecidableEq, Repr

inductive Command where
  | lint (arguments : LintArguments)
  | rules (config : Option Path) (json : Bool)
  | init (path : Path) (force : Bool)
  deriving DecidableEq, Repr

inductive CommandStop where
  /-- Help is asked for, on a command or on all. -/
  | help (command : Option CommandName)
  | version
  /-- There is no command. -/
  | noCommand
  /-- The arguments fit no command. -/
  | misuse
  deriving DecidableEq, Repr

namespace CommandName

def ofName? : String → Option CommandName
  | "lint" => some .lint
  | "rules" => some .rules
  | "init" => some .init
  | _ => none

def flags : CommandName → List String
  | .lint => ["--json", "--strict", "--highest-only"]
  | .rules => ["--json"]
  | .init => ["--force"]

def takesConfig : CommandName → Bool
  | .lint => true
  | .rules => true
  | .init => false

/-- The most operands that the command takes, if it does not take any number. -/
def maxOperands? : CommandName → Option Nat
  | .lint => none
  | .rules => some 0
  | .init => some 1

end CommandName

structure SortedArguments where
  flags : List String
  config : Option String
  operands : List String
  deriving DecidableEq, Repr

namespace SortedArguments

def empty : SortedArguments := ⟨[], none, []⟩

/-- Whether an argument is taken for an option. A lone dash is an operand. -/
def isOption (argument : String) : Bool := argument.startsWith "-" && argument ≠ "-"

/-- An option's name, and the value behind the first equals sign if there is one. -/
def splitValue (argument : String) : String × Option String :=
  match argument.toList.span (· ≠ '=') with
  | (name, []) => (String.ofList name, none)
  | (name, _ :: value) => (String.ofList name, some (String.ofList value))

/-- Takes in operands, unless there are too many of them. -/
def addOperands (command : CommandName) (sorted : SortedArguments) (operands : List String) :
    Except CommandStop SortedArguments :=
  let all := sorted.operands ++ operands
  if command.maxOperands?.all (all.length ≤ ·) then .ok { sorted with operands := all }
  else .error .misuse

/-- Takes in the path of the configuration file, which may be given only once. -/
def setConfig (sorted : SortedArguments) (value : String) : Except CommandStop SortedArguments :=
  if sorted.config.isSome then .error .misuse else .ok { sorted with config := some value }

/-- Takes in an option without a value, which may be given only once. -/
def addFlag (command : CommandName) (sorted : SortedArguments) (flag : String) :
    Except CommandStop SortedArguments :=
  if flag = "--help" ∨ flag.startsWith "-h" then .error (.help (some command))
  else if command.flags.contains flag && !sorted.flags.contains flag then
    .ok { sorted with flags := sorted.flags ++ [flag] }
  else .error .misuse

def sort (command : CommandName) : SortedArguments → List String →
    Except CommandStop SortedArguments
  | sorted, [] => .ok sorted
  | sorted, argument :: rest =>
    if argument = "--" then sorted.addOperands command rest
    else if !isOption argument then do
      sort command (← sorted.addOperands command [argument]) rest
    else
      match splitValue argument, command.takesConfig with
      | ("--config", some value), true => do sort command (← sorted.setConfig value) rest
      | ("--config", none), true =>
        match rest with
        | [] => .error .misuse
        | value :: rest =>
          if isOption value then .error .misuse
          else do sort command (← sorted.setConfig value) rest
      | (flag, none), _ => do sort command (← sorted.addFlag command flag) rest
      | (flag, some _), _ =>
        if flag.startsWith "-h" then .error (.help (some command)) else .error .misuse

/-- The command that the arguments make up. There has to be something to lint. -/
def toCommand (command : CommandName) (sorted : SortedArguments) : Except CommandStop Command :=
  let config := sorted.config.map Path.mk
  let has := fun (flag : String) => sorted.flags.contains flag
  match command with
  | .lint =>
    if sorted.operands.isEmpty then .error .misuse
    else .ok (.lint ⟨sorted.operands.map Path.mk, config, has "--json", has "--strict",
      has "--highest-only"⟩)
  | .rules => .ok (.rules config (has "--json"))
  | .init => .ok (.init ⟨sorted.operands.headD "."⟩ (has "--force"))

end SortedArguments

namespace Command

def helpOn : List String → CommandStop
  | [] => .help none
  | [name] =>
    if name = "help" then .help none
    else match CommandName.ofName? name with
      | some command => .help (some command)
      | none => .misuse
  | _ :: _ :: _ => .misuse

def ofArguments : List String → Except CommandStop Command
  | [] => .error .noCommand
  | ["--"] => .error .noCommand
  | argument :: rest =>
    match CommandName.ofName? argument with
    | some command => do (← SortedArguments.sort command .empty rest).toCommand command
    | none =>
      if argument = "help" then .error (helpOn rest)
      else if argument = "--help" ∨ argument.startsWith "-h" then .error (.help none)
      else if argument = "--version" ∨ argument.startsWith "-V" then .error .version
      else .error .misuse

end Command

end ClosureLint
