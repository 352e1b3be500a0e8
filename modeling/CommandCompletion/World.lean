/-
What lies outside the library: the files, and a record of what was asked.

Whatever reads files or runs commands on behalf of a grammar is given a `World`
and hands one back. Everything else is a function of its arguments.
-/
import CommandCompletion.Files

set_option autoImplicit false

namespace CommandCompletion

/-- The files, and the record of questions asked, oldest first. The record is there to see that
something was asked; nothing reads it to answer. -/
structure World where
  files : Files := {}
  log : List String := []
deriving Inhabited

/-- Adds a line to the record, behind all that were asked before. -/
def World.record (line : String) (world : World) : World :=
  { world with log := world.log ++ [line] }

/-- What a user sees of the machine: its files and the home directory, which may be unknown. -/
structure Host where
  files : Files := {}
  home : Option String := none
deriving Inhabited

end CommandCompletion
