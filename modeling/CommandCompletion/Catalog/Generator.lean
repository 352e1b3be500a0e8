/-
Generators: grammars that are computed when they are needed.

A generator is told the word that was typed and may run commands through a
probe. It answers with a fragment to lay over the node, or with locations to
load from.
-/
import CommandCompletion.Grammar
import CommandCompletion.Location
import CommandCompletion.Probe
import CommandCompletion.Text.Blank
import CommandCompletion.Path

set_option autoImplicit false

namespace CommandCompletion

/-- What a generator answers (specification, § 4.1): the three shapes are told apart by tags, never
by looking at fields (§ 9). -/
inductive Generated where
  /-- Fields to lay over the node. -/
  | fragment (fragment : Grammar)
  /-- A grammar stored elsewhere. -/
  | location (location : Location)
  /-- Several; the one named like the typed word is meant. -/
  | locations (locations : List Location)

/-- Computes a grammar; `σ` is the state of whatever lies outside. Commands are run through the
probe it is given, so whoever calls it sets the time they may take. -/
structure Generator (σ : Type) where
  generate : (word : String) → Probe σ → StateM σ (Except Failure Generated)

namespace Generator

/-! ## The output of a command -/

/-- What stands before the first tab, and what stands after it. Without a tab the whole line is the
name. -/
def splitAtTab (line : String) : String × Option String :=
  let name := line.toList.takeWhile (· != '\t')
  let rest := line.toList.dropWhile (· != '\t')
  (String.ofList name, if rest.isEmpty then none else some (String.ofList rest.tail))

/-- The child that a line of output describes: a name, and a description after a tab, both trimmed.
A line without a name describes none. -/
def childOfLine? (line : String) : Option Grammar :=
  let (name, description) := splitAtTab line
  let name := Text.trim name
  if name.isEmpty then none
  else some {
    id := ()
    names := [name]
    description := (description.map Text.trim).filter fun text => !text.isEmpty }

/-- A fragment whose children are the lines of an output; none if the command did not succeed. It
has no name, so it changes the children of a node and nothing else. -/
def fragmentOfOutput (output : ProbeOutput) : Grammar where
  id := ()
  children := if output.succeeded then (Text.lines output.stdout).filterMap childOfLine? else []

/-- The generator that runs a command and lists its output (specification, § E2.4). The typed word
plays no part; a probe that fails makes it fail. -/
def ofCommand {σ : Type} (command : String) (args : List String) : Generator σ where
  generate _ probe := do
    return (← probe.run command args).map fun output => .fragment (fragmentOfOutput output)

/-! ## Fixed answers -/

/-- The generator that always answers the same and records what it is asked, so that a run can be
seen to have happened. -/
def ofAnswer (name : String) (answer : Except Failure Generated) : Generator World where
  generate word _ := do
    modify (World.record ("generate " ++ name ++ " " ++ word))
    return answer

end Generator

end CommandCompletion
