/-
Reading command-line arguments.

A command declares its flags, how many values it takes besides them, and the
commands below it. Arguments are read from left to right. A flag may be given
once; its value is attached to it or is the next argument, which must not look
like a flag. After `--` nothing is a flag. Reading ends early when help or the
version is asked for, whatever comes after.
-/

set_option autoImplicit false

namespace CommandCompletion.Arguments

/-- A flag: `--long`, or `-s` for short. One that takes a value never stands without. -/
structure Flag where
  long : String
  short : Option Char := none
  takesValue : Bool := false
  /-- Which values it takes. -/
  accepts : String → Bool := fun _ => true

/-- What a command declares. Nothing else is accepted, with one exception for its first value. -/
structure Command where
  flags : List Flag := []
  /-- How many values it takes besides the flags. -/
  maxValues : Nat := 0
  /-- Its first value may look like a flag, if it is no declared one. -/
  looseValue : Bool := false
  /-- The commands below it. -/
  commands : List String := []

/-- Why reading ended early. Asking for help or for the version is no error, but nothing is done
either. -/
inductive Stop where
  | usage
  | help
  | version
deriving DecidableEq, Repr, Inhabited

/-- What was read so far, and what the next argument is waited for with. -/
structure Found where
  /-- The flags that were given, with their values. A flag that takes no value
  has the empty one. -/
  flags : List (String × String) := []
  values : List String := []
  /-- A flag whose value comes next. -/
  waiting : Option Flag := none
  /-- A flag whose value came as an argument of its own. It is looked at when
  the next argument is. -/
  pending : Option (Flag × String) := none
deriving Inhabited

namespace Found

/-- Takes a flag with its value: it must be the first time, and the value one
that the flag accepts. -/
def record (found : Found) (flag : Flag) (value : String) : Except Stop Found :=
  if (found.flags.lookup flag.long).isSome || !flag.accepts value then .error .usage
  else .ok { found with flags := found.flags ++ [(flag.long, value)] }

/-- Takes the flag that is pending. A flag that still waits for its value is an
error. -/
def settle (found : Found) : Except Stop Found :=
  if found.waiting.isSome then .error .usage
  else
    match found.pending with
    | some (flag, value) => { found with pending := none }.record flag value
    | none => .ok found

/-- Takes a flag without a value. Two of these flags end the reading at once. -/
def switch (found : Found) (flag : Flag) : Except Stop Found := do
  let found ← found.settle
  if flag.long = "help" then throw .help
  else if flag.long = "version" then throw .version
  else found.record flag ""

/-- Takes a flag that needs a value, which may be attached. Otherwise it is the next argument. -/
def option (found : Found) (flag : Flag) (attached : Option String) : Except Stop Found := do
  let found ← found.settle
  match attached with
  | some value => found.record flag value
  | none => return { found with waiting := some flag }

/-- Takes an argument that is no flag. -/
def value (command : Command) (found : Found) (argument : String) : Except Stop Found :=
  match found.waiting with
  | some flag => .ok { found with waiting := none, pending := some (flag, argument) }
  | none => do
    let found ← found.settle
    if found.values.length < command.maxValues then
      return { found with values := found.values ++ [argument] }
    else throw .usage

end Found

/-- The flag of a short name. -/
def Command.short? (command : Command) (c : Char) : Option Flag :=
  command.flags.find? fun flag => flag.short == some c

/-- The flag of a long name, which has to be written in full. -/
def Command.long? (command : Command) (name : String) : Option Flag :=
  command.flags.find? fun flag => flag.long == name

/-- Whether an undeclared flag would be taken as a value here. So a line that begins with a dash can
be given without `--`. -/
def Command.isLoose (command : Command) (found : Found) : Bool :=
  command.looseValue && found.values.isEmpty

/-- Takes short flags that stand together. What follows one that needs a value
is its value, after an equals sign or not. -/
def readShorts (command : Command) : List Char → Found → Except Stop Found
  | [], found => .ok found
  | c :: cs, found =>
    match command.short? c with
    | none => .error .usage
    | some flag =>
      if flag.takesValue then
        found.option flag <|
          match cs with
          | [] => none
          | '=' :: value => some (String.ofList value)
          | value => some (String.ofList value)
      else do readShorts command cs (← found.switch flag)

/-- Takes a long flag; `body` is what follows the two dashes, a value after an
equals sign included. -/
def readLong (command : Command) (argument : String) (body : List Char) (found : Found) :
    Except Stop Found :=
  let attached := match body.dropWhile (· != '=') with
    | [] => none
    | _ :: value => some (String.ofList value)
  match command.long? (String.ofList (body.takeWhile (· != '='))) with
  | some flag =>
    if flag.takesValue then found.option flag attached
    else if attached.isSome then .error .usage
    else found.switch flag
  | none => if command.isLoose found then found.value command argument else .error .usage

/-- Takes an argument, where flags are still possible. -/
def readArgument (command : Command) (argument : String) (found : Found) : Except Stop Found :=
  match argument.toList with
  | '-' :: '-' :: body => readLong command argument body found
  | '-' :: c :: cs =>
    -- Letters that are all declared flags are flags even where a loose value may stand.
    if command.isLoose found && (c :: cs).any fun c => (command.short? c).isNone then
      found.value command argument
    else readShorts command (c :: cs) found
  -- A dash alone is a value.
  | _ => found.value command argument

/-- Reads all arguments, up to one that names a command below this one; that name is answered with
the arguments after it. `onlyValues` says that `--` was read. What is pending at the end is left to
the caller to settle. -/
def readAll (command : Command) (onlyValues : Bool) :
    List String → Found → Except Stop (Found × Option (String × List String))
  | [], found => .ok (found, none)
  | argument :: rest, found =>
    if onlyValues then do readAll command true rest (← found.value command argument)
    else if found.waiting.isNone && command.commands.contains argument then
      .ok (found, some (argument, rest))
    else if argument = "--" then
      if found.waiting.isSome then .error .usage else readAll command true rest found
    else do readAll command false rest (← readArgument command argument found)

end CommandCompletion.Arguments
