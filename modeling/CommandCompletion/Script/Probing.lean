/-
Probes that run shells and utilities.

A probe asks for a command by name, in a directory and for a limited time. What
can be run is the shell and the utilities; any other command is not found. A
command that is not done when its time is over has timed out, and so has one
whose output somebody still holds open.
-/
import CommandCompletion.Probe
import CommandCompletion.Script.Running

set_option autoImplicit false

namespace CommandCompletion.Script

/-- Why no command can be started in a directory, if none can. -/
def directoryCause? (files : Files) (directory : String) : Option FileCause :=
  match files.find directory with
  | .ok (.folder _) => none
  | .ok (.file _) => some .notDirectory
  | .error cause => some cause

/-- Why a command cannot be started, if it cannot. A command with a slash is a path;
only programs can be run. -/
def commandCause? (files : Files) (command : String) : Option FileCause :=
  if command.toList.contains '/' then
    match files.find command with
    | .ok _ => if (programAt? (files.names command)).isSome then none else some .permissionDenied
    | .error cause => some cause
  else if Files.maxNameBytes < Text.byteLength command.toList then some .nameTooLong
  else if programs.contains command then none
  else some .notFound

/-- Runs a program and leaves the process as it is then. -/
def run (files : Files) (environment : List (String × String)) (millis : Nat) (command : String)
    (args : List String) : Process :=
  let machine : Machine := {
    root := files.root, deadline := 1000 * millis, openings := [(0, {})]
    buffers := [(Machine.resultNumber, []), (Machine.complaintNumber, [])] }
  let process : Process := {
    machine := machine
    directory := "/" ++ String.intercalate "/" (files.names "")
    parameters := environment.map fun (name, value) => (encode name, ⟨some (encode value), true, false⟩)
    streams := [(0, .opening 0), (1, .buffer Machine.resultNumber), (2, .buffer Machine.complaintNumber)] }
  let act := Act.runProgram (runnerAt maxLevels) true (encode command) (args.map encode)
  (act.run process).2

/-- When a process and those that it started are done. -/
def endOf (process : Process) : Nat :=
  if Act.isEndless process.stop then forever
  else (process.jobs.filter Job.holds).foldl (fun time job => max time job.time) process.clock

/-- What a finished process left behind. -/
def outputOf (process : Process) : ProbeOutput where
  stdout := decode (process.machine.textOf Machine.resultNumber)
  stderr := decode (process.machine.textOf Machine.complaintNumber)
  status := match process.stop with
    | some (.killed _) => none
    | _ => some process.status

end CommandCompletion.Script

namespace CommandCompletion

/-- The probe that runs programs in a directory, each for a limited time. -/
def Probe.ofScripts (environment : List (String × String)) (directory : Option String)
    (millis : Nat) : Probe World where
  run command args := do
    let world ← get
    let hasNul := (command :: (directory.toList ++ args)).any fun text => text.toList.contains '\x00'
    let path := directory.getD "."
    let files := { world.files with workingDirectory := Path.join world.files.workingDirectory path }
    if hasNul then return .error (.probeNotStarted command "nul byte found in provided data")
    else
      match Script.directoryCause? world.files path <|> Script.commandCause? files command with
      | some cause => return .error (.probeNotStarted command cause.message)
      | none =>
        let process := Script.run files environment millis command args
        set { world with files := { world.files with root := process.machine.root } }
        if 1000 * millis ≤ Script.endOf process then return .error (.probeTimedOut command millis)
        else return .ok (Script.outputOf process)

end CommandCompletion
