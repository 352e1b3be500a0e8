/-
Probes: bounded runs of a command whose output a generator looks at.

`σ` is the state of whatever lies outside. A probe may change it, and nothing
is assumed of how, so statements about what a grammar does with a probe hold of
every probe.
-/
import CommandCompletion.Failure
import CommandCompletion.World

set_option autoImplicit false

namespace CommandCompletion

/-- What a command left behind (specification, § E2.4). What it wrote to its second output is kept,
but no generator of the library looks at it. -/
structure ProbeOutput where
  stdout : String := ""
  stderr : String := ""
  /-- The exit status, `none` if a signal ended the command. -/
  status : Option Int := some 0
deriving DecidableEq, Repr, Inhabited

/-- Ended with status 0. A command that a signal ended did not succeed. -/
def ProbeOutput.succeeded (output : ProbeOutput) : Bool := output.status == some 0

/-- Runs commands for generators, each for a limited time. How long is settled by whoever makes the
probe. -/
structure Probe (σ : Type) where
  run : (command : String) → (args : List String) → StateM σ (Except Failure ProbeOutput)

/-- The time a probe is given, in milliseconds, unless settings say otherwise (specification, § 6).
-/
def defaultProbeMillis : Nat := 5000

namespace Probe

/-! ## Fixed answers -/

/-- What a table says about a command: what it leaves behind, or that it takes too long. -/
inductive Row where
  | output (output : ProbeOutput)
  | timeout (millis : Nat)
deriving DecidableEq, Repr, Inhabited

/-- The line that records a run. -/
def recordLine (command : String) (args : List String) : String :=
  "probe " ++ command ++ " " ++ String.intercalate " " args

/-- The probe that answers from a table and records what it is asked. A command that the table
leaves out could not be started. -/
def ofTable (table : List (String × Row)) : Probe World where
  run command args := do
    modify (World.record (recordLine command args))
    return match table.lookup command with
      | some (.output output) => .ok output
      | some (.timeout millis) => .error (.probeTimedOut command millis)
      | none => .error (.probeNotStarted command "not in table")

end Probe

end CommandCompletion
