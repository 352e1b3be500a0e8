/-
Commands of the shell itself that run no other commands.

They work on the process. A complaint of one of them names it, and stops the
shell if the command is one of the special ones.
-/
import CommandCompletion.Script.Expansion
import CommandCompletion.Script.Utility

set_option autoImplicit false

namespace CommandCompletion.Script

/-- The special commands. -/
def specialNames : List String :=
  [".", ":", "break", "continue", "eval", "exec", "exit", "export", "local", "readonly", "return",
    "set", "shift", "times", "trap", "unset"]

/-- The other commands of the shell itself. -/
def plainNames : List String :=
  ["[", "alias", "bg", "cd", "chdir", "command", "echo", "false", "fg", "getopts", "hash", "jobs",
    "kill", "printf", "pwd", "read", "test", "true", "type", "ulimit", "umask", "unalias", "wait"]

/-- A command of the shell itself. -/
def isBuiltin (name : String) : Bool := specialNames.contains name || plainNames.contains name

/-! ## Signals -/

/-- The signals by their names. Number zero is the end of the shell. -/
def signals : List (String × Nat) := [
  ("EXIT", 0), ("HUP", 1), ("INT", 2), ("QUIT", 3), ("ILL", 4), ("TRAP", 5), ("ABRT", 6), ("BUS", 7),
  ("FPE", 8), ("KILL", 9), ("USR1", 10), ("SEGV", 11), ("USR2", 12), ("PIPE", 13), ("ALRM", 14),
  ("TERM", 15), ("STKFLT", 16), ("CHLD", 17), ("CONT", 18), ("STOP", 19), ("TSTP", 20), ("TTIN", 21),
  ("TTOU", 22), ("URG", 23), ("XCPU", 24), ("XFSZ", 25), ("VTALRM", 26), ("PROF", 27), ("WINCH", 28),
  ("POLL", 29), ("PWR", 30), ("SYS", 31)]

/-- The number of a signal that is named, in any case, or numbered. -/
def signalOf? (text : String) : Option Nat :=
  match natOf? text with
  | some n => if n ≤ 64 then some n else none
  | none => signals.lookup (text.map Char.toUpper)

/-- The name of a signal. -/
def signalName (number : Nat) : String :=
  ((signals.find? fun entry => entry.2 == number).map (·.1)).getD (toString number)

/-- The signals that do not end a shell. -/
def harmlessSignals : List Nat := [0, 17, 18, 23, 28]

namespace Act

/-! ## Arguments -/

/-- The number that an argument must be. -/
def numberOf (text : String) : Act Nat :=
  match natOf? text with
  | some n => return n
  | none => refuse s!"Illegal number: {text}"

/-- The letters among the arguments, and the operands. -/
def lettersOf (known : String) : List String → Act (List Char × List String)
  | [] => return ([], [])
  | "--" :: args => return ([], args)
  | arg :: args => do
    if arg.startsWith "-" && arg != "-" then
      match (arg.toList.drop 1).find? fun c => !known.toList.contains c with
      | some c => refuse s!"Illegal option -{c}"
      | none =>
        let (letters, operands) ← lettersOf known args
        return (arg.toList.drop 1 ++ letters, operands)
    else return ([], arg :: args)

/-- The name and the value, for an argument that may give one. -/
def settingOf (arg : String) : String × Option String :=
  match arg.splitOn "=" with
  | name :: parts@(_ :: _) => (name, some (String.intercalate "=" parts))
  | _ => (arg, none)

/-- A value as it can stand in a script. -/
def quoteValue (value : String) : String := "'" ++ value.replace "'" "'\"'\"'" ++ "'"

/-! ## Directories -/

/-- Changes the directory. -/
def changeDirectory (args : List String) : Act Unit := do
  let (_, operands) ← lettersOf "LP" args
  let old := encode (← get).directory
  let path ← match operands with
    | [] => pure ((← valueOf "HOME").getD "")
    | "-" :: _ => pure ((← valueOf "OLDPWD").getD "")
    | path :: _ => pure path
  let files ← files
  if path.isEmpty then setStatus 0
  else if files.isDirectory (decode path) then
    let directory := "/" ++ String.intercalate "/" (files.names (decode path))
    modify fun process => { process with directory := directory, status := 0 }
    let note (name value : String) : Act Unit := putParameter name (some ⟨some value, true, false⟩)
    note "OLDPWD" old
    note "PWD" (encode directory)
    if operands.head? == some "-" then put 1 (encode directory ++ "\n")
  else refuse s!"can't cd to {path}"

/-! ## Parameters -/

/-- Marks parameters, and gives them values. -/
def mark (exports : Bool) (args : List String) : Act Unit := do
  let isMarked (parameter : Parameter) : Bool := if exports then parameter.exported else parameter.fixed
  let (letters, operands) ← lettersOf "p" args
  setStatus 0
  if letters.contains 'p' || operands.isEmpty then
    let marked := ((← get).parameters.filter fun (_, parameter) => isMarked parameter).mergeSort
      fun a b => decide (a.1 ≤ b.1)
    let word := if exports then "export" else "readonly"
    for (name, parameter) in marked do
      put 1 (s!"{word} {name}" ++ parameter.value.elim "" (fun value => "=" ++ quoteValue value) ++ "\n")
  else
    for arg in operands do
      let (name, value) := settingOf arg
      unless isName name do refuse s!"{name}: bad variable name"
      match value with
      | some value => assign name value
      | none => pure ()
      let parameter := (← parameter? name).getD {}
      putParameter name (some (if exports then { parameter with exported := true }
        else { parameter with fixed := true }))

/-- Makes parameters the function's own. -/
def makeOwn (args : List String) : Act Unit := do
  if (← get).depth = 0 then refuse "not in a function"
  setStatus 0
  for arg in args do
    let (name, value) := settingOf arg
    unless isName name do refuse s!"{name}: bad variable name"
    let old ← parameter? name
    modify fun process =>
      if (process.hidden.lookup name).isSome then process
      else { process with hidden := (name, old) :: process.hidden }
    match value with
    | some value => assign name value
    | none => pure ()

/-- Removes parameters or functions. -/
def unset (args : List String) : Act Unit := do
  let (letters, operands) ← lettersOf "fv" args
  setStatus 0
  for name in operands do
    if letters.contains 'f' then
      modify fun process => { process with functions := process.functions.filter (·.1 != name) }
    else
      unless isName name do refuse s!"{name}: bad variable name"
      if ((← parameter? name).map Parameter.fixed).getD false then refuse s!"{name}: is read only"
      putParameter name none

/-- The letters of options, with their names. -/
def optionNames : List (Char × String) := [
  ('e', "errexit"), ('f', "noglob"), ('I', "ignoreeof"), ('i', "interactive"), ('m', "monitor"),
  ('n', "noexec"), ('s', "stdin"), ('x', "xtrace"), ('v', "verbose"), ('V', "vi"), ('E', "emacs"),
  ('C', "noclobber"), ('a', "allexport"), ('b', "notify"), ('u', "nounset")]

/-- Sets an option, or takes it back. -/
def setOption (on : Bool) (letter : Char) : Act Unit :=
  modify fun process =>
    let known := optionNames.reverse.map (·.1)
    let isSet := fun c => if c = letter then on else process.options.contains c
    { process with options := known.filter isSet }

/-- Sets options by arguments; the answer is what follows them, `none` if nothing
does. -/
def setOptions : List String → Act (Option (List String))
  | [] => return none
  | "--" :: args => return some args
  | "-" :: args => return if args.isEmpty then none else some args
  | sign :: args => do
    let on := sign.startsWith "-"
    if !on && !sign.startsWith "+" then return some (sign :: args)
    else if sign.drop 1 == "o" then
      match args with
      | [] =>
        let isSet := (← get).options
        put 1 "Current option settings\n"
        for (letter, name) in optionNames do
          let gap := String.ofList (List.replicate (16 - name.length) ' ')
          put 1 (name ++ gap ++ (if isSet.contains letter then "on" else "off") ++ "\n")
        return none
      | name :: args =>
        match optionNames.find? fun entry => entry.2 == name with
        | some (letter, _) => setOption on letter; setOptions args
        | none => refuse s!"Illegal option -o {name}"
    else
      for letter in sign.toList.drop 1 do
        unless (optionNames.lookup letter).isSome do
          refuse s!"Illegal option {sign.take 1}{letter}"
        setOption on letter
      setOptions args

/-- Sets options and arguments, or shows all parameters. -/
def setAll (args : List String) : Act Unit := do
  setStatus 0
  if args.isEmpty then
    let shown := (← get).parameters.mergeSort fun a b => decide (a.1 ≤ b.1)
    for (name, parameter) in shown do
      match parameter.value with
      | some value => put 1 (name ++ "=" ++ quoteValue value ++ "\n")
      | none => pure ()
  else
    match ← setOptions args with
    | some arguments => modify fun process => { process with arguments := arguments }
    | none => pure ()

/-- Drops the first arguments. -/
def shift (args : List String) : Act Unit := do
  let count ← match args with
    | text :: _ => numberOf text
    | [] => pure 1
  if (← get).arguments.length < count then refuse "can't shift that many"
  modify fun process => { process with arguments := process.arguments.drop count, status := 0 }

/-! ## Reading -/

/-- A line of the input, with marks for what was quoted, and whether it was ended.
`raw` takes backslashes as they are. -/
def lineOf (raw : Bool) : List Char → List Atom × Bool × List Char
  | [] => ([], false, [])
  | '\n' :: cs => ([], true, cs)
  | '\\' :: '\n' :: cs =>
    if raw then ([.sign '\\' false true], true, cs) else lineOf raw cs
  | '\\' :: c :: cs =>
    if raw then
      let (atoms, ended, rest) := lineOf raw (c :: cs)
      (.sign '\\' false true :: atoms, ended, rest)
    else
      let (atoms, ended, rest) := lineOf raw cs
      (.sign c true false :: atoms, ended, rest)
  | ['\\'] => (if raw then [.sign '\\' false true] else [], false, [])
  | c :: cs =>
    let (atoms, ended, rest) := lineOf raw cs
    (.sign c false true :: atoms, ended, rest)

/-- An atom is a blank to cut at. -/
def isCutBlank (separators : List Char) : Atom → Bool
  | .sign c _ cuts => cuts && separators.contains c && (c == ' ' || c == '\t' || c == '\n')
  | _ => false

/-- An atom is a character to cut at. -/
def isCut (separators : List Char) : Atom → Bool
  | .sign c _ cuts => cuts && separators.contains c
  | _ => false

/-- Cuts a line in so many values; the last has all the rest. -/
def shares (separators : List Char) : (count : Nat) → List Atom → List String
  | 0, _ => []
  | 1, atoms =>
    let atoms := atoms.dropWhile (isCutBlank separators)
    -- A single field may have its separator behind it.
    match Atom.fields separators atoms with
    | [] => [""]
    | [field] => [Pattern.text field]
    | _ => [Atom.text (atoms.reverse.dropWhile (isCutBlank separators)).reverse]
  | count + 1, atoms =>
    let atoms := atoms.dropWhile (isCutBlank separators)
    let first := atoms.takeWhile fun atom => !isCut separators atom
    let rest := (atoms.drop first.length).dropWhile (isCutBlank separators)
    let rest := match rest with
      | atom :: others => if isCut separators atom then others else rest
      | [] => []
    Atom.text first :: shares separators count rest

/-- Reads a line into parameters. -/
def readLineInto (args : List String) : Act Unit := do
  let rec letters : List String → Act (Bool × List String)
    | "-p" :: _ :: args => letters args
    | "-r" :: args => return (true, (← letters args).2)
    | "--" :: args => return (false, args)
    | arg :: args =>
      if arg.startsWith "-" && arg != "-" then
        match arg.toList.drop 1 with
        | ['p'] => letters args
        | c :: _ => refuse s!"Illegal option -{c}"
        | [] => return (false, arg :: args)
      else return (false, arg :: args)
    | [] => return (false, [])
  let (raw, names) ← letters args
  if names.isEmpty then refuse "arg count"
  let input ← inputOf 0
  let (atoms, ended, rest) := lineOf raw input.rest.toList
  leave 0 (String.ofList rest) true
  for (name, value) in names.zip (shares (← separators) names.length atoms) do
    unless isName name do refuse s!"{name}: bad variable name"
    assign name value
  setStatus (if ended then 0 else 1)

/-- Goes through the options among arguments, one at a time. -/
def nextOption (args : List String) : Act Unit := do
  match args with
  | known :: name :: given => do
    let process ← get
    let arguments := if given.isEmpty then process.arguments else given
    let place := ((← valueOf "OPTIND").bind natOf?).getD 1
    let finish (letters place status : Nat) (value : String) (argument : Option String) : Act Unit := do
      let old := (← parameter? "OPTARG").getD {}
      putParameter "OPTARG" (some { old with value := argument })
      assign name value
      assign "OPTIND" (toString place)
      modify fun process => { process with letters := letters, status := status }
    let arg := arguments.getD (place - 1) ""
    if process.letters = 0 && (!arg.startsWith "-" || arg == "-") then finish 0 place 1 "?" none
    else if process.letters = 0 && arg == "--" then finish 0 (place + 1) 1 "?" none
    else
      let at' := process.letters + 1
      let letter := (arg.toList.getD at' '?')
      let isLast := arg.length ≤ at' + 1
      let next := if isLast then (0, place + 1) else (at', place)
      let quiet := known.startsWith ":"
      match (known.toList.dropWhile (· != letter)) with
      | [] =>
        if !quiet then put 2 s!"Illegal option -{letter}\n"
        finish next.1 next.2 0 "?" (if quiet then some (String.singleton letter) else none)
      | _ :: behind =>
        if letter = ':' then
          if !quiet then put 2 s!"Illegal option -{letter}\n"
          finish next.1 next.2 0 "?" (if quiet then some ":" else none)
        else if behind.head? != some ':' then finish next.1 next.2 0 (String.singleton letter) none
        else if !isLast then
          finish 0 (place + 1) 0 (String.singleton letter) (some (arg.drop (at' + 1)).toString)
        else
          match arguments[place]? with
          | some value => finish 0 (place + 2) 0 (String.singleton letter) (some value)
          | none =>
            if quiet then finish 0 (place + 1) 0 ":" (some (String.singleton letter))
            else
              put 2 s!"No arg for -{letter} option\n"
              finish 0 (place + 1) 0 "?" none
  | _ => refuse "Usage: getopts optstring var [arg...]"

/-! ## Signals and jobs -/

/-- Says what is done when a signal comes. -/
def trap (args : List String) : Act Unit := do
  setStatus 0
  let args := if args.head? == some "--" then args.tail else args
  let set (action : Option String) (names : List String) : Act Unit := do
    for name in names do
      match signalOf? name with
      | some number =>
        let name := signalName number
        modify fun process =>
          let others := process.traps.filter (·.1 != name)
          { process with traps := action.elim others fun action => others ++ [(name, action)] }
      | none =>
        put 2 s!"trap: {name}: bad trap\n"
        setStatus 1
  match args with
  | [] =>
    let place := fun (entry : String × String) => (signals.lookup entry.1).getD 0
    for (name, action) in (← get).traps.mergeSort fun a b => place a ≤ place b do
      put 1 s!"trap -- {quoteValue action} {name}\n"
  | [name] => set none [name]
  | action :: names =>
    if action = "-" then set none names
    else if (natOf? action).isSome then set none (action :: names)
    else set (some action) names

/-- Sends a signal. Only the shell itself and its jobs can be reached. -/
def send (signal : Nat) (goal : String) : Act Unit := do
  let process ← get
  let number := if goal.startsWith "%" then
      ((goal.drop 1).toString.toNat?).bind fun n => (process.jobs.reverse[n - 1]?).map Job.number
    else natOf? goal
  match number with
  | none => refuse s!"Illegal number: {goal}"
  | some number =>
    if number = process.number then
      change fun machine => { machine with signal := some signal }
      setStatus 0
    else
      match process.jobs.find? fun job => job.number == number with
      | some job =>
        if job.time ≤ process.clock then complain "No such process\n" 1
        else
          if !harmlessSignals.contains signal then
            let ended := { job with status := 128 + signal, time := process.clock, holds := false }
            modify fun process => { process with
              jobs := process.jobs.map fun job => if job.number = number then ended else job }
          setStatus 0
      | none => complain "No such process\n" 1

/-- Sends signals, or names them. -/
def kill (args : List String) : Act Unit := do
  let usage :=
    "Usage: kill [-s sigspec | -signum | -sigspec] [pid | job]... or\nkill -l [exitstatus]"
  let sendAll (signal : Nat) (goals : List String) : Act Unit := do
    if goals.isEmpty then refuse usage
    for goal in goals do send signal goal
  match args with
  | [] => refuse usage
  | "-l" :: [] =>
    for number in List.range 32 do
      put 1 ((if number = 0 then "0" else signalName number) ++ "\n")
    setStatus 0
  | "-l" :: text :: _ =>
    let number ← numberOf text
    put 1 (signalName (if 128 < number then number - 128 else number) ++ "\n")
    setStatus 0
  | "-s" :: name :: goals =>
    match signalOf? name with
    | some signal => sendAll signal (if goals.head? == some "--" then goals.tail else goals)
    | none => refuse s!"invalid signal number or name: {name}"
  | "--" :: goals => sendAll 15 goals
  | first :: goals =>
    if first.startsWith "-" then
      match signalOf? (first.drop 1).toString with
      | some signal => sendAll signal goals
      | none => refuse s!"Illegal option -{(first.drop 1).take 1}"
    else sendAll 15 args

/-- Waits for jobs. -/
def wait (args : List String) : Act Unit := do
  let await (job : Job) : Act Unit := do
    if forever ≤ job.time then stop .endless
    modify fun process => { process with clock := max process.clock job.time }
  if args.isEmpty then
    for job in (← get).jobs do await job
    setStatus 0
  else
    for arg in args do
      let number := if arg.startsWith "%" then none else natOf? arg
      let process ← get
      let job := match number with
        | some number => process.jobs.find? fun job => job.number == number
        | none => ((arg.drop 1).toString.toNat?).bind fun n => process.jobs.reverse[n - 1]?
      match job with
      | none => setStatus 127
      | some job =>
        await job
        if 128 < job.status && !(endingText (job.status - 128)).isEmpty then
          put 2 (endingText (job.status - 128) ++ "\n")
        setStatus job.status

/-! ## Names -/

/-- What a name means as a command. -/
inductive Meaning where
  | keyword
  | function
  | special
  | builtin
  | program (path : String)
  | unknown
deriving DecidableEq, Repr

/-- What a name means. -/
def meaningOf (name : String) : Act Meaning := do
  let process ← get
  if keywords.contains name then return .keyword
  else if specialNames.contains name then return .special
  else if (process.functions.lookup name).isSome then return .function
  else if plainNames.contains name then return .builtin
  else if name.toList.contains '/' then
    return if (programAt? ((← files).names (decode name))).isSome then .program name else .unknown
  else
    let searchPath := ((process.parameters.lookup "PATH").bind Parameter.value).getD usualSearchPath
    return ((programPath? searchPath name).map Meaning.program).getD .unknown

/-- Explains names. -/
def explain (names : List String) : Act Unit := do
  setStatus 0
  for name in names do
    match ← meaningOf name with
    | .keyword => put 1 s!"{name} is a shell keyword\n"
    | .special => put 1 s!"{name} is a special shell builtin\n"
    | .function => put 1 s!"{name} is a shell function\n"
    | .builtin => put 1 s!"{name} is a shell builtin\n"
    | .program path => put 1 s!"{name} is {path}\n"
    | .unknown => put 1 s!"{name}: not found\n"; setStatus 127

/-- Shows what a name leads to, if it means anything. -/
def locate (name : String) : Act Unit := do
  match ← meaningOf name with
  | .unknown => setStatus 127
  | .program path => put 1 (path ++ "\n"); setStatus 0
  | _ => put 1 (name ++ "\n"); setStatus 0

/-- Runs a command of the shell itself that runs no other, if it has this name. -/
def builtin? (name : String) (args : List String) : Option (Act Unit) :=
  match name with
  | ":" => some (setStatus 0)
  | "cd" | "chdir" => some (changeDirectory args)
  | "export" => some (mark true args)
  | "readonly" => some (mark false args)
  | "local" => some (makeOwn args)
  | "unset" => some (unset args)
  | "set" => some (setAll args)
  | "shift" => some (shift args)
  | "read" => some (readLineInto args)
  | "getopts" => some (nextOption args)
  | "trap" => some (trap args)
  | "kill" => some (kill args)
  | "wait" => some (wait args)
  | "type" => some (explain args)
  | "times" => some do
    put 1 "0m0.000000s 0m0.000000s\n0m0.000000s 0m0.000000s\n"
    setStatus 0
  | "umask" => some do
    if args.isEmpty then put 1 "0022\n"
    setStatus 0
  | "ulimit" => some do
    put 1 "unlimited\n"
    setStatus 0
  | "hash" | "jobs" | "alias" | "unalias" => some (setStatus 0)
  | "fg" | "bg" => some (refuse "No current job")
  | _ => none

end Act

end CommandCompletion.Script
