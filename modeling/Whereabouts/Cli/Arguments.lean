import Whereabouts.Text.Affix

/-!
# Command lines

A command line is a few options of the program, the name of a command, and the command's own options
and arguments. `readProgram` reads up to the command, `readCommand` what is behind it. Options end
at the first double dash, which is dropped; a dash alone is an argument. The options by which the
command-line library installs and shows completions for a shell are left out: they are unknown here.
-/

namespace Whereabouts.Cli

inductive Command where
  | paths
  | flags
  | mktemp
deriving DecidableEq, Repr

def Command.ofName : String → Option Command
  | "paths" => some .paths
  | "flags" => some .flags
  | "mktemp" => some .mktemp
  | _ => none

def Command.valued : Command → Option String
  | .paths => some "--version-string"
  | .flags => none
  | .mktemp => some "--prefix"

def Command.takesArguments : Command → Bool
  | .flags => true
  | _ => false

inductive Stop where
  | usage
  | help
  | version
deriving DecidableEq, Repr

/-- A text that is read as an option: a dash and more. -/
def isOption (arg : String) : Bool := beginsWith arg "-" && 1 < arg.length

/-- What the program's own options ask for at once, the first of them winning, whether it is to be
verbose, and what stands behind them. -/
structure ProgramOptions where
  atOnce : Option Stop := none
  verbose : Bool := false
  rest : List String := []
deriving DecidableEq, Repr

def readProgram : List String → Except Stop ProgramOptions
  | [] => .ok {}
  | arg :: args =>
    if arg = "--" then .ok { rest := args }
    else if !isOption arg then .ok { rest := arg :: args }
    else if arg = "--version" then
      (readProgram args).map fun o => { o with atOnce := some .version }
    else if arg = "--help" then (readProgram args).map fun o => { o with atOnce := some .help }
    else if arg = "--verbose" then (readProgram args).map fun o => { o with verbose := true }
    else .error .usage

/-- The value of the command's option, the last one winning, its arguments, and whether its help is
asked for. -/
structure CommandOptions where
  value : Option String := none
  arguments : List String := []
  help : Bool := false
deriving DecidableEq, Repr

def attachedValue (option arg : String) : Option String :=
  if beginsWith arg (option ++ "=") then
    some (String.ofList (arg.toList.drop (option.length + 1)))
  else none

def readCommand (valued : Option String) : List String → Except Stop CommandOptions
  | [] => .ok {}
  | arg :: args =>
    if arg = "--" then .ok { arguments := args }
    else if !isOption arg then
      (readCommand valued args).map fun o => { o with arguments := arg :: o.arguments }
    else if arg = "--help" then (readCommand valued args).map fun o => { o with help := true }
    else if valued = some arg then
      match args with
      | [] => .error .usage
      | value :: args =>
        (readCommand valued args).map fun o => { o with value := o.value.or (some value) }
    else match valued.bind (attachedValue · arg) with
      | some value =>
        (readCommand valued args).map fun o => { o with value := o.value.or (some value) }
      | none => .error .usage

/-- The command that a line of arguments names, and what stands behind it. Where no command of the
name is known, an option behind the double dash is read after all. -/
def readLine (args : List String) : Except Stop (Command × Bool × List String) := do
  if args.isEmpty then throw .usage
  let o ← readProgram args
  match o.atOnce, o.rest with
  | some stop, _ => throw stop
  | none, [] => throw .usage
  | none, name :: rest =>
    match Command.ofName name with
    | some command => pure (command, o.verbose, rest)
    | none => throw ((← readProgram o.rest).atOnce.getD .usage)

def readOptions (command : Command) (args : List String) : Except Stop CommandOptions := do
  let o ← readCommand command.valued args
  if o.help then throw .help
  if !command.takesArguments && !o.arguments.isEmpty then throw .usage
  pure o

end Whereabouts.Cli
