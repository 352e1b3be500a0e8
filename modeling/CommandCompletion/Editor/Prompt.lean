/-
The prompt of the interactive editor.
-/
import CommandCompletion.Path

set_option autoImplicit false

namespace CommandCompletion.Editor

/-- The directory as the prompt shows it: the home directory and what lies below
it are written with a tilde. -/
def location (home : Option String) (cwd : String) : String :=
  match home.bind fun home => Path.below? home cwd with
  | some "" => "~"
  | some rest => "~/" ++ rest
  | none => cwd

/-- The texts of a prompt: on both sides of the line, in front of it, and in front of its further
lines. -/
structure Prompt where
  left : String
  right : String := ""
  indicator : String := ""
  multiline : String := "... "
deriving DecidableEq, Repr, Inhabited

/-- The prompt for a directory. Nothing else of it changes. -/
def Prompt.ofDirectory (home : Option String) (cwd : String) : Prompt where
  left := location home cwd ++ "> "

/-- What is shown while the history is searched for `term`. -/
def Prompt.search (term : String) (failing : Bool) : String :=
  "(" ++ (if failing then "failing " else "") ++ "reverse-search: " ++ term ++ ") "

end CommandCompletion.Editor
