/-
The place in a grammar that a command line leads to.

A context is all that is known about the word to be typed next: the node that
was reached, what that node may be followed by at this point, and the words
that still count.
-/
import CommandCompletion.Grammar.Inheritance
import CommandCompletion.Shell
import CommandCompletion.Word

set_option autoImplicit false

namespace CommandCompletion

/-- What the next word may be. These are the two terminal contexts of the matcher: driven by a
command, or by an argument (specification, § 4.3). -/
inductive Expected where
  /-- Anything the node accepts. `argsExhausted` says that the slots of the node,
  or of the option just given, are filled, `argsUsed` that the node has taken a
  positional argument. -/
  | anything (argsExhausted argsUsed : Bool)
  /-- A value for `slot`. With `remainingOptional` every slot that is left may be
  skipped, so a child or an option may come as well. -/
  | value (slot : Slot) (remainingOptional : Bool)
deriving DecidableEq, Repr, Inhabited

/-- The place that was reached; `ι` is what identifies nodes. A recommender sees this and the
entries of a directory, and nothing else. -/
structure Context (ι : Type) where
  expected : Expected
  /-- The innermost node that was reached. -/
  node : Node ι
  /-- Options that the node inherits. -/
  inherited : List CommandOption := []
  /-- The word being typed, if one is. -/
  current : Option Word := none
  /-- The words taken since the last node was entered, and before them those
  of persistent options. -/
  accepted : List Word := []
  /-- The directory whose entries are offered as paths. -/
  directory : String
  shell : Shell

namespace Context

variable {ι : Type}

/-- The text that candidates have to begin with. Of a path, only the last segment counts, since only
that is replaced. -/
def typed (context : Context ι) : String :=
  match context.current with
  | none => ""
  | some word =>
    if word.isPath then
      if word.isPathComplete then "" else context.shell.baseName word.text
    else word.text

/-- The options that are offered: those of the node, then those it inherits and does not hide. A
typed word is looked up the other way round (`CommandOption.find?`). -/
def availableOptions (context : Context ι) : List CommandOption :=
  CommandOption.available context.node.options context.inherited

/-- Whether a word that still counts was typed as this option. Any accepted word that looks like one
of its names is taken for it, values of other options included. -/
def isUsed (context : Context ι) (option : CommandOption) : Bool :=
  context.accepted.any fun word => word.isOption && option.answersTo word.text

end Context

end CommandCompletion
