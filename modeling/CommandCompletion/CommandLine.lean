/-
The command line of the program.

The flags that choose settings may stand before the command or after it; after
it they count for more. Without a command the program is interactive.
-/
import CommandCompletion.Arguments
import CommandCompletion.Shell

set_option autoImplicit false

namespace CommandCompletion

open Arguments (Command Flag Found Stop)

/-- What the program is asked to do (specification, § E1.4). -/
inductive Action where
  /-- Suggest for a line, typed in a directory and for a shell. -/
  | suggest (line : String) (directory : Option String) (shell : Option Shell)
  /-- List the commands that begin with a text. -/
  | list (beginning : String)
  /-- Prompt for lines and suggest for them. -/
  | prompt
  /-- Print the completion script for a shell. -/
  | script (shell : String)
  /-- Show the settings, or check the file they come from. -/
  | settings (shown checked : Bool)
deriving DecidableEq, Repr, Inhabited

/-- A use of the program: what to do, and the settings that are chosen for this once. -/
structure Invocation where
  settingsFile : Option String := none
  grammarDirectory : Option String := none
  format : Option String := none
  colorless : Bool := false
  verbose : Bool := false
  veryVerbose : Bool := false
  action : Action := .prompt
deriving DecidableEq, Repr, Inhabited

namespace CommandLine

/-! ## Declarations -/

/-- Is not empty, as a path must be. -/
def isPath (value : String) : Bool := !value.isEmpty

/-- Asks for help, with the program as well as with every command. -/
def helpFlag : Flag where
  long := "help"
  short := some 'h'

/-- The flags of the program and of every command below it (specification, § E1.4). -/
def sharedFlags : List Flag := [
  { long := "config", short := some 'c', takesValue := true, accepts := isPath },
  { long := "spec-dir", takesValue := true, accepts := isPath },
  { long := "format", short := some 'f', takesValue := true },
  { long := "no-color" },
  { long := "verbose", short := some 'v' },
  { long := "vv" },
  helpFlag]

/-- The names of the commands. -/
def commandNames : List String := ["suggest", "specs", "repl", "completion", "config", "help"]

/-- The program itself, which takes no values of its own. -/
def program : Command where
  flags := { long := "version", short := some 'V' } :: sharedFlags
  commands := commandNames

/-- The command of this name, for a name of `commandNames`. Those that take no flags of their own
share one declaration. -/
def command (name : String) : Command :=
  match name with
  | "suggest" => {
      flags := [
        { long := "cwd", takesValue := true, accepts := isPath },
        { long := "shell", takesValue := true
          accepts := fun value => (Shell.ofExactName? value).isSome }] ++ sharedFlags
      maxValues := 1
      looseValue := true }
  | "specs" | "completion" => { flags := sharedFlags, maxValues := 1 }
  | "config" => { flags := [{ long := "show" }, { long := "validate" }] ++ sharedFlags }
  | _ => { flags := sharedFlags }

/-! ## Meaning -/

/-- A flag was given, whatever its value is. -/
def has (flags : List (String × String)) (name : String) : Bool := (flags.lookup name).isSome

/-- What a command and what was given to it ask for; `none` if a value is missing. -/
def action? (name : String) (found : Found) : Option Action :=
  match name, found.values with
  | "suggest", [line] => some (.suggest line (found.flags.lookup "cwd")
      ((found.flags.lookup "shell").bind Shell.ofExactName?))
  | "specs", values => some (.list (values.headD ""))
  | "repl", _ => some .prompt
  | "completion", [shell] => some (.script shell)
  | "config", _ => some (.settings (has found.flags "show") (has found.flags "validate"))
  | _, _ => none

/-- The use that the flags and the action make. Where a flag was given twice, the first in the list
counts. -/
def invocation (flags : List (String × String)) (action : Action) : Invocation where
  settingsFile := flags.lookup "config"
  grammarDirectory := flags.lookup "spec-dir"
  format := flags.lookup "format"
  colorless := has flags "no-color"
  verbose := has flags "verbose"
  veryVerbose := has flags "vv"
  action := action

/-- Help for the program, or for the one command that is named. -/
def helpOn : List String → Stop
  | [] => .help
  | [name] => if commandNames.contains name then .help else .usage
  | _ => .usage

/-- Reads the arguments of a use. Without a command, an interactive use is meant. -/
def read (arguments : List String) : Except Stop Invocation := do
  let (outer, below) ← Arguments.readAll program false arguments {}
  match below with
  | none => return invocation (← outer.settle).flags .prompt
  | some ("help", names) => throw (helpOn names)
  | some (name, arguments) =>
    let (inner, _) ← Arguments.readAll (command name) false arguments {}
    let inner ← inner.settle
    match action? name inner with
    | none => throw .usage
    -- A look-up finds what comes first, so flags after the command count for more.
    | some action => return invocation (inner.flags ++ (← outer.settle).flags) action

end CommandLine

end CommandCompletion
