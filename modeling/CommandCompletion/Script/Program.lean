/-
Programs that run other programs, and how utilities are run by a process.

What a program runs is left to the caller, who knows all programs.
-/
import CommandCompletion.Script.Redirection
import CommandCompletion.Script.Utility.Finding

set_option autoImplicit false

namespace CommandCompletion.Script.Act

/-- Runs a program by its name and its arguments. -/
abbrev RunProgram := (name : String) → (args : List String) → Act Unit

/-- Takes over how a copy of the process ended. If the copy stood for the process
itself, a signal ends both. -/
def settle (exiting : Bool) (ending : Option Stop × Nat × Nat) : Act Unit := do
  let (reason, status, clock) := ending
  modify fun process => { process with status := status, clock := max process.clock clock }
  match reason with
  | some .endless => stop .endless
  | some (.killed signal) =>
    if exiting then stop (.killed signal)
    reportEnding reason
  | _ => pure ()

/-- Runs a utility; `label` stands in front of each of its complaints. -/
def runUtility (utility : Utility) (name : String) (args : List String) (label : String := "") :
    Act Unit := do
  let request : Request := {
    files := ← files, input := ← inputOf 0, environment := ← environment, name := name, args := args }
  let result := utility request
  match result.root with
  | some root => change fun machine => { machine with root := root }
  | none => pure ()
  put 2 (if label.isEmpty then result.err else ofLines ((linesOf result.err).map (label ++ ·)))
  match result.unread with
  | some unread =>
    -- What was read may have come late, and so does what is written.
    match ← stream? 0 with
    | some (.opening n) =>
      let opening := ((← get).machine.openings.lookup n).getD {}
      modify fun process => { process with clock := max process.clock opening.time }
    | _ => pure ()
    put 1 result.out
    leave 0 unread
  | none => put 1 result.out
  if forever ≤ result.millis then stop .endless
  modify fun process => { process with
    clock := process.clock + 1000 * result.millis, status := result.status }

/-- Complains in the name of a program. -/
def complainAs (name text : String) (status : Nat) : Act Unit := do
  put 2 s!"{name}: {text}\n"
  setStatus status

/-- The words of a program's complaint that another one is not there. -/
def missingText (name : String) : String := s!"{quoteAlways name}: No such file or directory"

/-- Whether a program can be run. -/
def isProgram (name : String) : Act Bool := do
  if name.toList.contains '/' then return (programAt? ((← files).names (decode name))).isSome
  let searchPath := (← valueOf "PATH").getD usualSearchPath
  return (programPath? searchPath name).isSome

/-- Runs a program that must be there. -/
def runFor (owner : String) (run : RunProgram) (words : List String) (lead : String := "") :
    Act Unit := do
  match words with
  | [] => setStatus 0
  | name :: args =>
    if ← isProgram name then run name args
    else complainAs owner (lead ++ missingText name) 127

/-! ## Environments -/

/-- Runs a program in a changed environment, or shows the environment. -/
def runInEnvironment (run : RunProgram) (name : String) : (rounds : Nat) → List String → Act Unit
  | 0, _ => setStatus 125
  | rounds + 1, args => do
    let clear : Act Unit := modify fun process => { process with parameters := [] }
    match args with
    | "-i" :: args | "-" :: args => clear; runInEnvironment run name rounds args
    | "-u" :: key :: args => putParameter key none; runInEnvironment run name rounds args
    | "--" :: args => runInEnvironment run name rounds args
    | [] =>
      for (key, value) in ← environment do put 1 (key ++ "=" ++ value ++ "\n")
      setStatus 0
    | arg :: rest =>
      match settingOf arg with
      | (key, some value) =>
        putParameter key (some ⟨some value, true, false⟩)
        runInEnvironment run name rounds rest
      | (_, none) =>
        if arg.startsWith "-" && arg.length = 2 then
          complainAs name s!"invalid option -- '{arg.drop 1}'" 125
          put 2 s!"Try '{name} --help' for more information.\n"
        else runFor name run args

/-! ## Lists of arguments -/

/-- The arguments in a text: words between blanks, in which quotes quote. -/
def argumentsIn : (rounds : Nat) → (word : Option (List Char)) → List Char → List String
  | 0, word, _ => (word.map fun cs => String.ofList cs.reverse).toList
  | _, word, [] => (word.map fun cs => String.ofList cs.reverse).toList
  | rounds + 1, word, c :: cs =>
    if Pattern.isBlank c then
      match word with
      | some word => String.ofList word.reverse :: argumentsIn rounds none cs
      | none => argumentsIn rounds none cs
    else if c = '\\' then
      match cs with
      | c :: cs => argumentsIn rounds (some (c :: word.getD [])) cs
      | [] => argumentsIn rounds word []
    else if c = '\'' || c = '"' then
      let inside := cs.takeWhile (· != c)
      argumentsIn rounds (some (inside.reverse ++ word.getD [])) (cs.drop (inside.length + 1))
    else argumentsIn rounds (some (c :: word.getD [])) cs

/-- How arguments are handed to a program. -/
structure Handing where
  /-- Most arguments at once. -/
  most : Option Nat := none
  /-- Most lines at once. -/
  lines : Option Nat := none
  /-- A text that gives way to the argument. -/
  mark : Option String := none
  /-- What parts the arguments in the input. -/
  separator : Option Char := none
  skipsNone : Bool := false
  traces : Bool := false
  words : List String := []

/-- What the options say about handing arguments on. -/
def handingOf : (rounds : Nat) → List String → Handing → Except String Handing
  | 0, words, handing => .ok { handing with words := words }
  | _, [], handing => .ok handing
  | rounds + 1, arg :: args, handing =>
    let valued (letter : String) : Option (String × List String) :=
      if arg = letter then
        match args with
        | value :: args => some (value, args)
        | [] => none
      else if arg.startsWith letter then some ((arg.drop 2).toString, args)
      else none
    if arg = "--" then .ok { handing with words := args }
    else if !arg.startsWith "-" || arg = "-" then .ok { handing with words := arg :: args }
    else
      match valued "-n", valued "-I", valued "-d", valued "-L" with
      | some (value, args), _, _, _ => handingOf rounds args { handing with most := natOf? value }
      | _, some (value, args), _, _ => handingOf rounds args { handing with mark := some value }
      | _, _, some (value, args), _ =>
        let c := match value.toList with
          | ['\\', 'n'] => '\n'
          | ['\\', 't'] => '\t'
          | ['\\', '0'] => '\x00'
          | c :: _ => c
          | [] => ' '
        handingOf rounds args { handing with separator := some c }
      | _, _, _, some (value, args) => handingOf rounds args { handing with lines := natOf? value }
      | none, none, none, none =>
        match arg with
        | "-0" | "--null" => handingOf rounds args { handing with separator := some '\x00' }
        | "-r" | "--no-run-if-empty" => handingOf rounds args { handing with skipsNone := true }
        | "-t" => handingOf rounds args { handing with traces := true }
        | arg =>
          match valued "-P", valued "-s" with
          | some (_, args), _ | _, some (_, args) => handingOf rounds args handing
          | none, none => .error s!"invalid option -- '{(arg.drop 1).take 1}'"

/-- Parts of a list, of so many each. -/
def portions {α : Type} (count : Nat) : (rounds : Nat) → List α → List (List α)
  | 0, _ => []
  | _, [] => []
  | rounds + 1, items => items.take count :: portions count rounds (items.drop count)

/-- Runs a program on the arguments in the input. -/
def handOn (run : RunProgram) (name : String) (args : List String) : Act Unit := do
  match handingOf (args.length + 1) args {} with
  | .error text =>
    complainAs name text 1
    put 2 s!"Try '{name} --help' for more information.\n"
  | .ok handing =>
    let input ← inputOf 0
    leave 0 ""
    let cs := input.rest.toList
    let words := if handing.words.isEmpty then ["echo"] else handing.words
    let cut (c : Char) : List String :=
      let parts := input.rest.splitOn (String.singleton c)
      if parts.getLast? == some "" then parts.dropLast else parts
    let calls : List (List String) :=
      match handing.mark with
      | some mark =>
        let lines := (cut (handing.separator.getD '\n')).map fun line =>
          if handing.separator.isSome then line else (line.dropWhile Pattern.isBlank).toString
        (lines.filter fun line => !line.isEmpty).map fun line => words.map fun word => word.replace mark line
      | none =>
        let items := match handing.separator with
          | some c => cut c
          | none => argumentsIn (cs.length + 1) none cs
        match handing.lines with
        | some count =>
          (portions count (cs.length + 1) ((cut '\n').filter fun line => !line.isEmpty)).map fun lines =>
            words ++ lines.flatMap fun line => argumentsIn (line.length + 1) none line.toList
        | none =>
          if items.isEmpty then (if handing.skipsNone then [] else [words])
          else
            (portions (max 1 (handing.most.getD 4096)) (items.length + 1) items).map (words ++ ·)
    lead 0 (some (← openText {}))
    let mut worst := 0
    for call in calls do
      if worst ≠ 127 then
        if handing.traces then put 2 (String.intercalate " " call ++ "\n")
        match call with
        | program :: _ =>
          if ← isProgram program then
            runFor name run call
            let status := (← get).status
            if status ≠ 0 then worst := 123
          else
            complainAs name (s!"{program}: No such file or directory") 127
            worst := 127
        | [] => pure ()
    setStatus worst

/-! ## Time and place -/

/-- Runs a program for a limited time. -/
def runLimited (run : RunProgram) (name : String) : (rounds : Nat) → List String → Act Unit
  | 0, _ => setStatus 125
  | rounds + 1, args => do
    match args with
    | "-s" :: _ :: args | "-k" :: _ :: args => runLimited run name rounds args
    | "--foreground" :: args | "--preserve-status" :: args | "-v" :: args => runLimited run name rounds args
    | time :: words@(_ :: _) =>
      match millisOf? time with
      | none =>
        complainAs name s!"invalid time interval {quoteAlways time}" 125
        put 2 s!"Try '{name} --help' for more information.\n"
      | some millis =>
        let start := (← get).clock
        let limit := if millis = 0 then forever else start + 1000 * millis
        let deadline := (← get).machine.deadline
        change fun machine => { machine with deadline := min deadline limit }
        let (stop, status, clock) ← inside (runFor name run words "failed to run command ")
        change fun machine => { machine with deadline := deadline }
        if limit ≤ clock || (isEndless stop && limit < forever) then
          modify fun process => { process with clock := limit, status := 124 }
        else settle false (stop, status, clock)
    | _ =>
      put 2 s!"Try '{name} --help' for more information.\n"
      setStatus 125

/-- Shows where programs are. -/
def showPrograms (names : List String) : Act Unit := do
  let searchPath := (← valueOf "PATH").getD usualSearchPath
  let names := names.filter fun name => !name.startsWith "-"
  setStatus (if names.isEmpty then 1 else 0)
  for name in names do
    let found ← if name.toList.contains '/' then
        pure (if ← isProgram name then some name else none)
      else pure (programPath? searchPath name)
    match found with
    | some path => put 1 (path ++ "\n")
    | none => setStatus 1

/-- Finds files, with what is done to them. -/
def runFind (run : RunProgram) (name : String) (args : List String) : Act Unit := do
  let request : Request := { files := ← files, name := name, args := args }
  let hands : Hands Act := {
    put := put 1
    complain := put 2
    run := fun words => do
      runFor name run words
      return (← get).status = 0
    remove := fun path => do setFiles ((← files).remove (decode path)) }
  let status ← find hands request
  setStatus status

/-- Runs a program that runs others, if it has this name. -/
def runner? (run : RunProgram) (name program : String) (args : List String) : Option (Act Unit) :=
  match program with
  | "env" => some (runInEnvironment run name (args.length + 1) args)
  | "xargs" => some (handOn run name args)
  | "timeout" => some (runLimited run name (args.length + 1) args)
  | "find" => some (runFind run name args)
  | "which" => some (showPrograms args)
  | "nohup" => some (runFor name run args "failed to run command ")
  | "nice" => some (runFor name run (match args with
    | "-n" :: _ :: args => args
    | args => args))
  | _ => none

end CommandCompletion.Script.Act
