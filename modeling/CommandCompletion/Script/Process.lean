/-
Processes: shells at work on the machine they share.

A process has its own directory, parameters and streams. What it writes goes to
buffers or files of the machine, and what it reads comes from what was opened
there, so that a process that is started by another one works on the same
things. Time is counted, not spent: every process has a clock of its own, and
what is written carries the time at which it was written.
-/
import CommandCompletion.Script.Reading
import CommandCompletion.Script.Utility.Basic

set_option autoImplicit false

namespace CommandCompletion.Script

/-! ## The machine -/

/-- A text that was written at some time. -/
structure Chunk where
  time : Nat
  text : String

/-- What was opened to read. -/
structure Opening where
  /-- What is left to read. -/
  rest : String := ""
  /-- The file that it comes from, and how much of that has been read. -/
  file : Option String := none
  offset : Nat := 0
  /-- More follows than anyone can read. -/
  endless : Bool := false
  /-- When all of it is there. -/
  time : Nat := 0
deriving Inhabited

/-- Where a stream leads. -/
inductive Stream where
  | nowhere
  | buffer (number : Nat)
  /-- The end of a file. -/
  | file (path : String)
  | opening (number : Nat)
deriving DecidableEq, Repr, Inhabited

/-- What processes share. -/
structure Machine where
  root : Entry := .folder []
  /-- What was written to each buffer, the last first. -/
  buffers : List (Nat × List Chunk) := []
  openings : List (Nat × Opening) := []
  /-- The next number for a buffer or an opening. -/
  nextNumber : Nat := 2
  /-- When nobody waits any more. -/
  deadline : Nat := forever
  /-- A signal that a shell was sent by one that it started. -/
  signal : Option Nat := none
deriving Inhabited

namespace Machine

/-- The buffers for what is written at last: results, and complaints. -/
def resultNumber : Nat := 0

/-- See `resultNumber`. -/
def complaintNumber : Nat := 1

/-- The text in a buffer, in the order of time, without what came too late. -/
def textOf (machine : Machine) (number : Nat) (deadline : Nat := forever) : String :=
  let chunks := ((machine.buffers.lookup number).getD []).reverse
  let chunks := chunks.filter fun chunk => chunk.time ≤ deadline
  -- Sorting is needed only where processes have written beside each other.
  let isOrdered := (chunks.zip chunks.tail).all fun (a, b) => a.time ≤ b.time
  let chunks := if isOrdered then chunks else chunks.mergeSort fun a b => a.time ≤ b.time
  String.join (chunks.map Chunk.text)

/-- Adds to a buffer. -/
def addTo (number : Nat) (chunk : Chunk) (machine : Machine) : Machine :=
  let rec add : List (Nat × List Chunk) → List (Nat × List Chunk)
    | [] => [(number, [chunk])]
    | (n, chunks) :: rest => if n = number then (n, chunk :: chunks) :: rest else (n, chunks) :: add rest
  { machine with buffers := add machine.buffers }

/-- Drops a buffer. -/
def dropBuffer (number : Nat) (machine : Machine) : Machine :=
  { machine with buffers := machine.buffers.filter (·.1 != number) }

/-- Changes an opening. -/
def setOpening (number : Nat) (opening : Opening) (machine : Machine) : Machine :=
  { machine with openings := (number, opening) :: machine.openings.filter (·.1 != number) }

end Machine

/-! ## Processes -/

/-- Why a process goes no further. -/
inductive Stop where
  | exited
  /-- By the signal of this number. -/
  | killed (signal : Nat)
  /-- Out of so many loops, or on with the next round of a loop. -/
  | breaking (levels : Nat)
  | continuing (levels : Nat)
  /-- Out of a function or a script that was read in. -/
  | returning
  /-- It never ends. -/
  | endless
deriving DecidableEq, Repr, Inhabited

/-- What is said of a command that a signal ended; nothing is said of some. -/
def endingText : Nat → String
  | 1 => "Hangup"
  | 3 => "Quit"
  | 4 => "Illegal instruction"
  | 5 => "Trace/breakpoint trap"
  | 6 => "Aborted"
  | 7 => "Bus error"
  | 8 => "Floating point exception"
  | 9 => "Killed"
  | 10 => "User defined signal 1"
  | 11 => "Segmentation fault"
  | 12 => "User defined signal 2"
  | 14 => "Alarm clock"
  | 15 => "Terminated"
  | _ => ""

/-- A parameter: its value, if it has one, whether commands get it, and whether it
can change. -/
structure Parameter where
  value : Option String := none
  exported : Bool := false
  fixed : Bool := false
deriving DecidableEq, Repr, Inhabited

/-- A process that runs beside its shell. -/
structure Job where
  number : Nat
  status : Nat
  /-- When it ends. -/
  time : Nat
  /-- What it writes is waited for. -/
  holds : Bool
deriving DecidableEq, Repr, Inhabited

/-- A shell at work. -/
structure Process where
  machine : Machine := {}
  directory : String := "/"
  /-- What the script is called, and its arguments. -/
  name : String := "sh"
  arguments : List String := []
  parameters : List (String × Parameter) := []
  functions : List (String × Command) := []
  /-- The parameters that the innermost function hides. -/
  hidden : List (String × Option Parameter) := []
  /-- How deep functions are nested. -/
  depth : Nat := 0
  /-- How deep loops are nested. -/
  loops : Nat := 0
  streams : List (Nat × Stream) := []
  /-- The letters of the options that are set. -/
  options : List Char := []
  traps : List (String × String) := []
  status : Nat := 0
  /-- The status of the last command whose output was taken. -/
  takenStatus : Option Nat := none
  stop : Option Stop := none
  /-- A failure is no reason to stop. -/
  guarded : Bool := false
  line : Nat := 1
  /-- The command that complaints name. -/
  caller : Option String := none
  /-- In steps of which a thousand make a millisecond. -/
  clock : Nat := 0
  number : Nat := 100
  /-- It was started by a shell of the same number. -/
  isInner : Bool := false
  jobs : List Job := []
  /-- How many letters of an argument were read as options. -/
  letters : Nat := 0
deriving Inhabited

/-- What a process does; it fails if the process stops. -/
abbrev Act (α : Type) := OptionT (StateM Process) α

/-- Runs a command. -/
abbrev Run := Command → Act Unit

namespace Act

/-- Stops the process. -/
def stop {α : Type} (reason : Stop) : Act α := do
  modify fun process => { process with stop := some reason }
  failure

/-- Does something that may stop the process; the reason is left in the process. -/
def attempt {α : Type} (act : Act α) : Act (Option α) := fun process =>
  let (answer, process) := act.run process
  (some answer, process)

/-- Sets the status. -/
def setStatus (status : Nat) : Act Unit := modify fun process => { process with status := status }

/-- Changes what processes share. -/
def change (f : Machine → Machine) : Act Unit :=
  modify fun process => { process with machine := f process.machine }

/-- The files, as the process sees them. -/
def files : Act Files := do
  let process ← get
  return { root := process.machine.root, workingDirectory := process.directory }

/-- Puts the files in the place of those that were there. -/
def setFiles (files : Files) : Act Unit := change fun machine => { machine with root := files.root }

/-- A number that was not used yet. -/
def newNumber : Act Nat := do
  let number := (← get).machine.nextNumber
  change fun machine => { machine with nextNumber := number + 1 }
  return number

/-- Goes round while a step says so. Who goes round too often never ends. -/
def goRound (step : Act Bool) : (rounds : Nat) → Process → Option Unit × Process
  | 0, process => (none, { process with stop := some .endless })
  | rounds + 1, process =>
    -- A loop that goes on after everyone has left is not followed any further.
    if process.machine.deadline ≤ process.clock then (none, { process with stop := some .endless })
    else
      match step.run process with
      | (some true, process) => goRound step rounds process
      | (some false, process) => (some (), process)
      | (none, process) => (none, process)

/-- Most rounds of a loop. -/
def maxRounds : Nat := 200000

/-- Repeats a step as long as it says so. -/
def loop (step : Act Bool) : Act Unit := fun process => goRound step maxRounds process

/-! ## Streams -/

/-- Where a stream leads, `none` if it is closed. -/
def stream? (number : Nat) : Act (Option Stream) := return (← get).streams.lookup number

/-- Leads a stream elsewhere, or closes it. -/
def lead (number : Nat) (stream : Option Stream) : Act Unit :=
  modify fun process =>
    let others := process.streams.filter (·.1 != number)
    { process with streams := stream.elim others fun stream => (number, stream) :: others }

/-- Writes octets to a stream. -/
def put (number : Nat) (octets : String) : Act Unit := do
  if octets.isEmpty then return
  match ← stream? number with
  | some (.buffer buffer) =>
    let time := (← get).clock
    change (Machine.addTo buffer ⟨time, octets⟩)
  | some (.file path) =>
    let files ← files
    match files.find path with
    | .ok (.file bytes) => setFiles (files.putFile path (bytes ++ bytesOf octets))
    | _ => pure ()
  | _ => pure ()

/-- Complains in a line; `text` follows the name of the script and the line. -/
def complain (text : String) (status : Nat) : Act Unit := do
  let process ← get
  let caller := process.caller.elim "" (· ++ ": ")
  put 2 (s!"{process.name}: {process.line}: {caller}{text}\n")
  setStatus status

/-- Complains and stops. -/
def refuse {α : Type} (text : String) (status : Nat := 2) : Act α := do
  complain text status
  stop .exited

/-- Opens a text. -/
def openText (opening : Opening) : Act Stream := do
  let number ← newNumber
  change (Machine.setOpening number opening)
  return .opening number

/-- What can be read from a stream. -/
def inputOf (number : Nat) : Act Input := do
  match ← stream? number with
  | some (.opening n) =>
    let opening := ((← get).machine.openings.lookup n).getD {}
    -- A file is read anew, since it may have been written to since.
    match opening.file with
    | some path =>
      match (← files).find path with
      | .ok (.file bytes) =>
        return { rest := (octetsOf bytes).drop opening.offset |>.toString, isFile := true }
      | _ => return { rest := opening.rest, isFile := true }
    | none => return { rest := opening.rest, endless := opening.endless }
  | _ => return {}

/-- How much a utility takes at once from what is no file. -/
def blockSize : Nat := 8192

/-- Takes note of what was left unread; `exactly` if no more was taken than was
used. Whoever asks for more than there is waits for it. -/
def leave (number : Nat) (unread : String) (exactly : Bool := false) : Act Unit := do
  match ← stream? number with
  | some (.opening n) =>
    let opening := ((← get).machine.openings.lookup n).getD {}
    let input ← inputOf number
    let used := input.rest.length - unread.length
    -- A file can be left at any place; of other inputs whole blocks are gone.
    let used := if exactly || input.isFile then used
      else min input.rest.length ((used + blockSize - 1) / blockSize * blockSize)
    if opening.endless && unread.isEmpty then stop .endless
    change (Machine.setOpening n { opening with
      rest := (input.rest.drop used).toString, offset := opening.offset + used })
    modify fun process => { process with clock := max process.clock opening.time }
  | _ => pure ()

/-! ## Parameters -/

/-- A parameter by its name. -/
def parameter? (name : String) : Act (Option Parameter) := return (← get).parameters.lookup name

/-- Sets or removes a parameter, whatever it was. -/
def putParameter (name : String) (parameter : Option Parameter) : Act Unit :=
  modify fun process =>
    let others := process.parameters.filter (·.1 != name)
    { process with
      parameters := parameter.elim others fun parameter => (name, parameter) :: others }

/-- Gives a value to a parameter; the shell stops if that is not allowed. -/
def assign (name value : String) : Act Unit := do
  let parameter := (← parameter? name).getD { exported := (← get).options.contains 'a' }
  if parameter.fixed then refuse s!"{name}: is read only"
  putParameter name (some { parameter with value := some value })
  if name = "OPTIND" then modify fun process => { process with letters := 0 }

/-- The value of a named parameter. -/
def valueOf (name : String) : Act (Option String) := return (← parameter? name).bind Parameter.value

/-- The parameters that commands get. -/
def environment : Act (List (String × String)) := do
  return (← get).parameters.reverse.filterMap fun (name, parameter) =>
    if parameter.exported then parameter.value.map (name, ·) else none

/-! ## Processes in processes -/

/-- Runs something in a copy of the process. The copy leaves behind its status, its
clock and what it changed on the machine; the answer says how it stopped. -/
def inside (act : Act Unit) : Act (Option Stop × Nat × Nat) := fun process =>
  let inner := { process with
    stop := none, isInner := true, jobs := [], loops := 0
    traps := process.traps.filter fun (_, action) => action.isEmpty }
  let (_, inner) := act.run inner
  let status := match inner.stop with
    | some (.killed signal) => 128 + signal
    | _ => inner.status
  (some (inner.stop, status, inner.clock), { process with machine := inner.machine })

/-- Says of a process that a signal ended it. -/
def reportEnding (reason : Option Stop) : Act Unit := do
  match reason with
  | some (.killed signal) =>
    let text := endingText signal
    unless text.isEmpty do put 2 (text ++ "\n")
  | _ => pure ()

/-- Whether a process is to go no further, as it never ends. -/
def isEndless : Option Stop → Bool
  | some .endless => true
  | _ => false

end Act

end CommandCompletion.Script
