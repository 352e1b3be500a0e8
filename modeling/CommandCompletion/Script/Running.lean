/-
Running commands.

A command is run by going down its tree. What leads out of the tree, such as the
body of a function, the script of another shell or a command whose output is
asked for, is left to a runner of a lower level, so that the number of levels
bounds how deep all of that is nested.
-/
import CommandCompletion.Script.Program

set_option autoImplicit false

namespace CommandCompletion.Script

/-- Runs what is not part of a command: other commands and programs. A process
that does nothing afterwards is `exiting`, and ends the way that they do. -/
structure Runner where
  command : (exiting : Bool) → Command → Act Unit
  program : (exiting : Bool) → (name : String) → (args : List String) → Act Unit

namespace Act

/-! ## Scripts -/

/-- Runs the lines of a script. At the end of a script that ends its process, the
last command may take the place of the process. -/
def runLines (runner : Runner) (isWhole : Bool) : (rounds : Nat) → Source → Act Unit
  | 0, _ => return
  | rounds + 1, source => do
    match readLine source with
    | .error fault =>
      modify fun process => { process with line := fault.line }
      refuse fault.text
    | .ok none => return
    | .ok (some (commands, rest)) =>
      -- Only where nothing follows may the last command take the place of the process.
      let ended := isWhole && rest.rest.all Pattern.isBlank
      runner.command ended (.ofList commands)
      runLines runner isWhole rounds rest

/-- Runs a script. -/
def runScript (runner : Runner) (isWhole : Bool) (text : String) : Act Unit := do
  setStatus 0
  runLines runner isWhole (text.length + 1) { rest := text.toList }

/-- Runs an action that was set for a signal. The status stays. -/
def runAction (runner : Runner) (action : String) : Act Unit := do
  let process ← get
  runLines runner false (action.length + 1) { rest := action.toList }
  modify fun after => { after with status := process.status, line := process.line }

/-- Does what a process is there for, and then what was set for its end. -/
def finishing (runner : Runner) (act : Act Unit) : Act Unit := do
  let _ ← attempt act
  let process ← get
  -- An end that the process does not live to see runs no action.
  let ends := match process.stop with
    | some (.killed _) | some .endless => false
    | _ => true
  match process.traps.lookup "EXIT" with
  | some action =>
    if ends then
      -- The action is taken away first, so that it cannot be set off by its own end.
      set { process with traps := process.traps.filter (·.1 != "EXIT"), stop := none }
      runAction runner action
      stop .exited
  | none => pure ()
  if process.stop.isSome then failure

/-- Heeds a signal that the shell was sent. -/
def heed (runner : Runner) : Act Unit := do
  let process ← get
  match process.machine.signal with
  | none => pure ()
  | some signal =>
    -- A copy of the shell leaves the signal to the shell itself.
    unless process.isInner do
      change fun machine => { machine with signal := none }
      -- Two signals cannot be caught.
      let action := if signal = 9 || signal = 19 then none else process.traps.lookup (signalName signal)
      match action with
      | some action => runAction runner action
      | none =>
        if signal = 19 then stop .endless
        unless harmlessSignals.contains signal do stop (.killed signal)

/-- A failure stops the process, if that was asked for and nothing guards it. -/
def judge : Act Unit := do
  let process ← get
  if process.status ≠ 0 && process.options.contains 'e' && !process.guarded then stop .exited

/-- Does something whose failure is no reason to stop. -/
def guarding (act : Act Unit) : Act Unit := do
  let guarded := (← get).guarded
  modify fun process => { process with guarded := true }
  let answer ← attempt act
  modify fun process => { process with guarded := guarded }
  if answer.isNone then failure

/-! ## Commands of the shell itself that run others -/

/-- Runs the function of a name. -/
def callFunction (runner : Runner) (body : Command) (args : List String) : Act Unit := do
  let before ← get
  if 1000 ≤ before.depth then refuse "Maximum function recursion depth (1000) reached"
  set { before with arguments := args, hidden := [], depth := before.depth + 1, loops := 0 }
  let answer ← attempt (runner.command false body)
  -- Parameters that the function has hidden come back, also if it was left early.
  for (name, old) in (← get).hidden do putParameter name old
  modify fun after => { after with
    arguments := before.arguments, hidden := before.hidden, depth := before.depth
    loops := before.loops }
  if answer.isNone then
    if (← get).stop = some .returning then modify fun process => { process with stop := none }
    else failure

/-- Runs a script in the process, from a file. -/
def readIn (runner : Runner) (args : List String) : Act Unit := do
  match args with
  | [] => setStatus 0
  | path :: rest =>
    let files ← files
    let searchPath := (← valueOf "PATH").getD usualSearchPath
    let isFile := fun path => match files.find (decode path) with
      | .ok (.file _) => true
      | _ => false
    -- A name without a slash is looked for where programs are.
    let found := if path.toList.contains '/' then some path
      else ((searchPath.splitOn ":").map fun directory =>
        if directory.isEmpty then path else directory ++ "/" ++ path).find? isFile
    match found with
    | none => refuse s!"{path}: not found"
    | some path =>
      match files.find (decode path) with
      | .ok (.file bytes) =>
        let before ← get
        unless rest.isEmpty do modify fun process => { process with arguments := rest }
        modify fun process => { process with caller := some path }
        let answer ← attempt (runScript runner false (octetsOf bytes))
        unless rest.isEmpty do modify fun process => { process with arguments := before.arguments }
        modify fun process => { process with line := before.line }
        if answer.isNone then
          if (← get).stop = some .returning then modify fun process => { process with stop := none }
          else failure
      | .ok (.folder _) => setStatus 0
      | .error _ => refuse s!"cannot open {path}: No such file"

/-- Runs a program, if there is one of this name. -/
def runExternal (runner : Runner) (exiting : Bool) (name : String) (args : List String) : Act Unit := do
  if ← isProgram name then runner.program exiting name args
  else if name.toList.contains '/' && (← files).contains (decode name) then
    complain s!"{name}: Permission denied" 126
  else complain s!"{name}: not found" 127

/-- Leaves loops, or goes on with the next round. -/
def skip (reason : Nat → Stop) (args : List String) : Act Unit := do
  let levels ← match args with
    | text :: _ => numberOf text
    | [] => pure 1
  let loops := (← get).loops
  setStatus 0
  if 0 < loops then stop (reason (min levels loops))

/-- The status that an argument gives, or the one that there is. -/
def statusOf (args : List String) : Act Unit := do
  match args with
  | text :: _ => setStatus ((← numberOf text) % 256)
  | [] => pure ()

mutual

/-- Runs a command of the shell itself, or a program. `rounds` bounds how often one
stands in front of another. -/
def runPlainly (runner : Runner) (exiting : Bool) : (rounds : Nat) → List String → Act Unit
  | 0, _ => setStatus 1
  | _, [] => setStatus 0
  | rounds + 1, name :: args => do
    if isBuiltin name then runBuiltin runner exiting rounds name args
    else runExternal runner exiting name args

/-- Runs a command of the shell itself. -/
def runBuiltin (runner : Runner) (exiting : Bool) :
    (rounds : Nat) → (name : String) → (args : List String) → Act Unit
  | 0, _, _ => setStatus 1
  | rounds + 1, name, args => do
    let caller := (← get).caller
    modify fun process => { process with caller := some name }
    let inner : Act Unit :=
      match name with
      | "eval" => runScript runner false (String.intercalate " " args)
      | "." => readIn runner args
      | "break" => skip .breaking args
      | "continue" => skip .continuing args
      | "exit" => do
        statusOf args
        stop .exited
      | "return" => do
        statusOf args
        stop .returning
      | "exec" => do
        -- Without a program it is there for its redirections, which stay in force.
        unless args.isEmpty do
          modify fun process => { process with traps := [] }
          runExternal runner true (args.headD "") args.tail
          stop .exited
      | "command" =>
        match args with
        | "-v" :: name :: _ => locate name
        | "-V" :: names => explain names
        | "-p" :: words | words => do
          modify fun process => { process with caller := caller }
          -- What goes wrong in a special command does not stop the shell here.
          let answer ← attempt (runPlainly runner exiting rounds words)
          if answer.isNone then
            let process ← get
            let ends := ["exit", "return", "break", "continue", "eval", ".", "exec"].contains
              (words.headD "")
            if process.stop = some .exited && (!ends || process.status = 2 && words.headD "" = ".") then
              set { process with stop := none }
            else failure
      | name =>
        match builtin? name args with
        | some act => act
        | none =>
          match innerUtilities.lookup name with
          | some utility => do
            -- Complaints of these come from the shell.
            let process ← get
            runUtility utility name args s!"{process.name}: {process.line}: "
          | none => setStatus 0
    let answer ← attempt inner
    modify fun process => { process with caller := caller }
    if answer.isNone then
      if (← get).stop = some .exited && !specialNames.contains name && name != "command" then
        modify fun process => { process with stop := none }
      else failure

end

/-! ## Simple commands -/

/-- Shows a command before it is run, if that was asked for. -/
def trace (assignments : List (String × String)) (words : List String) : Act Unit := do
  if (← get).options.contains 'x' then
    let settings := assignments.map fun (name, value) => name ++ "=" ++ value
    put 2 ("+ " ++ String.intercalate " " (settings ++ words) ++ "\n")

/-- The fields of the words of a command. An argument that gives a value to a
parameter is not cut where the command is about parameters. -/
def fieldsOfCommand (run : Run) (words : List Word) : Act (List String) := do
  match words with
  | first :: rest =>
    if ["export", "readonly", "local"].contains ((Word.bare? first).getD "") then
      let fields ← rest.mapM fun word => do
        if (assignment? word).isSome then return [← textOf run word true]
        else fieldsOf run word
      return (Word.bare? first).getD "" :: fields.flatten
    else allFieldsOf run words
  | [] => return []

/-- Does something while parameters have other values. -/
def whileAssigned (exports : Bool) (assignments : List (String × String)) (act : Act Unit) : Act Unit := do
  let before ← assignments.mapM fun (name, _) => do return (name, ← parameter? name)
  for (name, value) in assignments do
    assign name value
    if exports then putParameter name (some ⟨some value, true, false⟩)
  let answer ← attempt act
  for (name, old) in before.reverse do putParameter name old
  if answer.isNone then failure

/-- Runs a simple command. -/
def runSimple (runner : Runner) (exiting : Bool) (line : Nat) (assignments : List (String × Word))
    (words : List Word) (redirections : List Redirection) : Act Unit := do
  if (← get).options.contains 'n' then return
  let run := runner.command true
  modify fun process => { process with line := line, takenStatus := none }
  let fields ← fieldsOfCommand run words
  let settings ← assignments.mapM fun (name, word) => do return (name, ← textOf run word true)
  trace settings fields
  let failed : Act Unit := setStatus 2
  match fields with
  | [] =>
    let done ← whileRedirected run redirections do
      -- Without a name, the assignments are all that is done, and they last.
      for (name, value) in settings do assign name value
    if done then setStatus ((← get).takenStatus.getD 0) else failed
  | name :: args =>
    let process ← get
    let hasTraps := process.traps.any fun (_, action) => !action.isEmpty
    -- An action that is set for the end needs a process that is still there.
    let exiting := exiting && !hasTraps
    -- For special commands assignments last too, and a redirection that fails ends the shell.
    if specialNames.contains name then
      for (name, value) in settings do assign name value
      if name = "exec" && args.isEmpty then
        unless ← redirectAll run redirections do stop .exited
        setStatus 0
      else
        unless ← whileRedirected run redirections (runBuiltin runner exiting 64 name args) do
          failed
          stop .exited
    else
      let body : Act Unit :=
        match process.functions.lookup name with
        | some body => whileAssigned true settings (callFunction runner body args)
        | none =>
          if isBuiltin name then whileAssigned false settings (runBuiltin runner exiting 64 name args)
          else whileAssigned true settings (runExternal runner exiting name args)
      unless ← whileRedirected run redirections body do failed
  heed runner
  judge

/-! ## Composed commands -/

/-- Runs the commands of a pipeline, each in a copy of the process; what one writes
is what the next one reads. -/
def runPiped (runner : Runner) (stages : List (Act Unit)) : Act Unit := do
  let start ← get
  let rec go (input : Option Stream) (waits : Bool) : List (Act Unit) → Act Unit
    | [] => pure ()
    | [last] => do
      let ending ← inside do
        match input with
        | some stream => lead 0 (some stream)
        | none => pure ()
        finishing runner last
      settle false ending
      if waits then stop .endless
    | stage :: stages => do
      let number ← newNumber
      let (reason, _, clock) ← inside do
        match input with
        | some stream => lead 0 (some stream)
        | none => pure ()
        lead 1 (some (.buffer number))
        finishing runner stage
      let text := (← get).machine.textOf number
      change (Machine.dropBuffer number)
      -- Who writes without end is stopped when nobody reads any more.
      let endless := isEndless reason
      let stream ← openText {
        rest := text, endless := endless && !text.isEmpty, time := if endless then 0 else clock }
      reportEnding reason
      -- Who was stopped did not take any time of those that come later.
      let later := if endless then start.clock else clock
      go (some stream) (waits || (endless && text.isEmpty)) stages
      modify fun process => { process with clock := max process.clock later }
  go none false stages

/-- Runs the body of a loop once. The answer is whether the loop goes on. -/
def runRound (body : Act Bool) : Act Bool := do
  match ← attempt body with
  | some goesOn => return goesOn
  | none =>
    let resume (stop : Option Stop) : Act Unit := modify fun process => { process with stop := stop }
    match (← get).stop with
    | some (.breaking levels) =>
      -- The loops further out are left as well, one level at a time.
      if 1 < levels then
        resume (some (.breaking (levels - 1)))
        failure
      resume none
      return false
    | some (.continuing levels) =>
      if 1 < levels then
        resume (some (.continuing (levels - 1)))
        failure
      resume none
      return true
    | _ => failure

/-- Does something inside a loop. -/
def looping (act : Act Unit) : Act Unit := do
  let loops := (← get).loops
  modify fun process => { process with loops := loops + 1 }
  let answer ← attempt act
  modify fun process => { process with loops := loops }
  if answer.isNone then failure

/-- Does something for each value of a parameter. -/
def runForEach (name : String) (act : Act Unit) : List String → Act Unit
  | [] => return
  | value :: values => do
    let goesOn ← runRound do
      assign name value
      act
      return true
    if goesOn then runForEach name act values

/-- Which streams a command leads elsewhere. -/
def ledStreams : Command → List Nat
  | .simple _ _ _ redirections | .redirected _ redirections => redirections.map (·.1)
  | _ => []

/-- Runs a command beside the process. -/
def runBeside (runner : Runner) (command : Command) (act : Act Unit) : Act Unit := do
  let process ← get
  let elsewhere := ledStreams command
  -- Whoever waits for what the shell writes waits for this process too, unless it writes
  -- elsewhere.
  let holds := [1, 2].any fun number =>
    !elsewhere.contains number && match process.streams.lookup number with
      | some (.buffer buffer) =>
        buffer = Machine.resultNumber || buffer = Machine.complaintNumber
      | _ => false
  let empty ← openText {}
  let (reason, status, clock) ← inside do
    -- The process itself goes on first.
    modify fun process => { process with clock := process.clock + 1 }
    lead 0 (some empty)
    finishing runner act
  let number := process.number + process.jobs.length + 1
  let job : Job := {
    number := number, status := status, holds := holds
    time := if isEndless reason then forever else clock }
  modify fun process => { process with jobs := job :: process.jobs, status := 0 }

mutual

/-- Runs a command. -/
def execute (runner : Runner) (exiting : Bool) : Command → Act Unit
  | .simple line assignments words redirections =>
    runSimple runner exiting line assignments words redirections
  | .pipeline negated commands => do
    let act : Act Unit := runPiped runner (stages runner commands)
    match negated, commands with
    | true, [command] =>
      guarding (execute runner false command)
      setStatus (if (← get).status = 0 then 1 else 0)
    | true, _ =>
      guarding act
      setStatus (if (← get).status = 0 then 1 else 0)
    | false, _ =>
      act
      heed runner
      judge
  | .both first second => do
    guarding (execute runner false first)
    if (← get).status = 0 then execute runner exiting second
  | .either first second => do
    guarding (execute runner false first)
    if (← get).status ≠ 0 then execute runner exiting second
  | .sequence commands => executeAll runner exiting commands
  | .background command => runBeside runner command (execute runner true command)
  | .subshell body => do
    let ending ← inside (finishing runner (execute runner true body))
    settle exiting ending
    heed runner
    judge
  | .redirected body redirections => do
    let run := runner.command true
    match body with
    | .subshell body =>
      let ending ← inside do
        if ← redirectAll run redirections then finishing runner (execute runner true body)
        else setStatus 2
      settle exiting ending
      heed runner
      judge
    | body =>
      unless ← whileRedirected run redirections (execute runner false body) do setStatus 2
  | .loop whileFails condition body => do
    let round : Act Bool := runRound do
      -- The status of the loop is that of its body.
      let last := (← get).status
      -- What a condition fails with is its answer and no reason to stop.
      guarding (execute runner false condition)
      if ((← get).status = 0) != whileFails then
        execute runner false body
        return true
      else
        setStatus last
        return false
    setStatus 0
    looping (loop round)
  | .each name words body => do
    let run := runner.command true
    let fields ← match words with
      | some words => allFieldsOf run words
      | none => pure (← get).arguments
    setStatus 0
    looping (runForEach name (execute runner false body) fields)
  | .choice condition consequence alternative => do
    guarding (execute runner false condition)
    if (← get).status = 0 then execute runner exiting consequence
    else
      setStatus 0
      executeIfAny runner exiting alternative
  | .select subject clauses => do
    let run := runner.command true
    let text ← textOf run subject
    setStatus 0
    executeMatching runner exiting text clauses
  | .definition name body => do
    modify fun process => { process with
      functions := (name, body) :: process.functions.filter (·.1 != name), status := 0 }

/-- Runs commands one after the other. -/
def executeAll (runner : Runner) (exiting : Bool) : List Command → Act Unit
  | [] => return
  | [command] => execute runner exiting command
  | command :: commands => do
    execute runner false command
    executeAll runner exiting commands

/-- Runs a command if there is one. -/
def executeIfAny (runner : Runner) (exiting : Bool) : Option Command → Act Unit
  | some command => execute runner exiting command
  | none => return

/-- What the commands of a pipeline do. -/
def stages (runner : Runner) : List Command → List (Act Unit)
  | [] => []
  | command :: commands => execute runner true command :: stages runner commands

/-- Runs the first clause with a pattern that matches a text. -/
def executeMatching (runner : Runner) (exiting : Bool) (text : String) :
    List (List Word × Command) → Act Unit
  | [] => return
  | (patterns, body) :: clauses => do
    let run := runner.command true
    let isMatch ← patterns.anyM fun word => do return (← patternOf run word).matchesText text
    if isMatch then execute runner exiting body
    else executeMatching runner exiting text clauses

end

/-! ## Shells -/

/-- What a shell is asked to do. -/
structure Call where
  options : List String := []
  /-- The text is given by an argument, or is the input. -/
  given : Bool := false
  fromInput : Bool := false
  operands : List String := []

/-- What the arguments of a shell ask for. -/
def Call.ofArgs : List String → Call
  | [] => {}
  | "--" :: args => { operands := args }
  | arg :: args =>
    if (arg.startsWith "-" || arg.startsWith "+") && 1 < arg.length then
      let letters := (arg.toList.drop 1).filter fun c => c != 'c' && c != 's'
      let given := arg.startsWith "-" && arg.toList.contains 'c'
      let fromInput := arg.startsWith "-" && arg.toList.contains 's'
      let own := if letters.isEmpty then [] else [String.ofList (arg.toList.take 1 ++ letters)]
      -- The letter `o` takes the name of an option from the next argument.
      match arg.endsWith "o", args with
      | true, name :: args =>
        let call := Call.ofArgs args
        { call with
          options := own ++ name :: call.options, given := given || call.given
          fromInput := fromInput || call.fromInput }
      | _, args =>
        let call := Call.ofArgs args
        { call with
          options := own ++ call.options, given := given || call.given
          fromInput := fromInput || call.fromInput }
    else { operands := arg :: args }

/-- The parameters that every shell has. -/
def ownParameters (environment : List (String × String)) (directory : String) :
    List (String × Parameter) :=
  let given := (environment.filter fun (name, _) => isName name && name != "IFS").map
    fun (name, value) => (name, (⟨some value, true, false⟩ : Parameter))
  let usual := [("IFS", " \t\n"), ("OPTIND", "1"), ("PATH", usualSearchPath), ("PPID", "99"),
    ("PS1", "$ "), ("PS2", "> "), ("PS4", "+ "), ("PWD", directory)]
  (usual.filter fun (name, _) => !given.any fun entry => entry.1 == name).map
    (fun (name, value) => (name, (⟨some value, false, false⟩ : Parameter))) ++ given.reverse

/-- Runs a shell. -/
def runShell (runner : Runner) (args : List String) : Act Unit := do
  let call := Call.ofArgs args
  let number ← newNumber
  let environment ← environment
  let script (text : String) (isWhole : Bool) : Act Unit :=
    finishing runner (runScript runner isWhole text)
  modify fun process => { process with
    name := "sh", arguments := [], functions := [], hidden := [], depth := 0, loops := 0, options := []
    parameters := ownParameters environment (encode process.directory)
    status := 0, guarded := false, line := 1, caller := none, number := 100 + number, isInner := false
    letters := 0 }
  let _ ← setOptions call.options
  let readInput (operands : List String) : Act Unit := do
    modify fun process => { process with arguments := operands }
    let input ← inputOf 0
    leave 0 ""
    script input.rest false
  match call.given, call.operands with
  | true, text :: operands =>
    modify fun process => { process with name := operands.headD "sh", arguments := operands.tail }
    script text true
  | true, [] =>
    put 2 "sh: 0: -c requires an argument\n"
    setStatus 2
  | false, path :: operands =>
    if call.fromInput then readInput (path :: operands)
    else
      modify fun process => { process with line := 0 }
      match (← files).find (decode path) with
      | .ok (.file bytes) =>
        modify fun process => { process with name := path, arguments := operands }
        script (octetsOf bytes) false
      | .ok (.folder _) => refuse s!"cannot open {path}: Is a directory"
      | .error _ => refuse s!"cannot open {path}: No such file"
  | false, [] => readInput []

/-- Runs a program of a name. -/
def runProgram (runner : Runner) (exiting : Bool) (name : String) (args : List String) : Act Unit := do
  let program := ((name.splitOn "/").getLast?).getD name
  match utilities.lookup program with
  | some utility => runUtility utility name args
  | none =>
    let act : Act Unit :=
      if program = "sh" || program = "dash" then runShell runner args
      else (runner? (runner.program false) name program args).getD (setStatus 127)
    -- A program works on a copy of the process, and only what it wrote stays.
    settle exiting (← inside act)

end Act

/-- The runner of a level. At the lowest level everything goes on without end. -/
def runnerAt : (levels : Nat) → Runner
  | 0 => { command := fun _ _ => Act.stop .endless, program := fun _ _ _ => Act.stop .endless }
  | levels + 1 => {
    command := fun exiting command => Act.execute (runnerAt levels) exiting command
    program := fun exiting name args => Act.runProgram (runnerAt levels) exiting name args }

/-- How deep commands may be nested. -/
def maxLevels : Nat := 2048

end CommandCompletion.Script
