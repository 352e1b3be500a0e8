/-
Commands of the POSIX shell.

A script is a tree of commands. The words in it keep apart what was quoted,
since only what stands bare is cut at blanks and matched against file names, and
a word may hold whole commands, whose output stands for them.
-/

set_option autoImplicit false

namespace CommandCompletion.Script

mutual

/-- A part of a word. -/
inductive Part where
  /-- A character that stands for itself. -/
  | char (quoted : Bool) (c : Char)
  /-- Quotes around nothing; they make a word of nothing. -/
  | quotes
  /-- The value of a parameter, or what is made of it. -/
  | parameter (quoted : Bool) (name : String) (change : Change)
  /-- What a command writes. -/
  | output (quoted : Bool) (command : Command)
  /-- The value of an arithmetic expression. -/
  | arithmetic (quoted : Bool) (expression : List Part)
  /-- Braces after a dollar sign that name no parameter. -/
  | malformed

/-- What is made of the value of a parameter. The first four take a word into
account when the parameter has no value, or an empty one if `emptyToo` says so. -/
inductive Change where
  | none
  | fallback (emptyToo : Bool) (word : List Part)
  | assign (emptyToo : Bool) (word : List Part)
  | insist (emptyToo : Bool) (word : List Part)
  | replace (emptyToo : Bool) (word : List Part)
  | length
  /-- What a pattern matches is cut off at the front, or at the back. -/
  | cutFront (longest : Bool) (pattern : List Part)
  | cutBack (longest : Bool) (pattern : List Part)

/-- Where a stream is led. -/
inductive Target where
  | write (path : List Part)
  | extend (path : List Part)
  | read (path : List Part)
  | readWrite (path : List Part)
  /-- A text that stands in the script. -/
  | document (text : List Part)
  /-- To where another stream is led now. -/
  | stream (number : List Part)

/-- A command. -/
inductive Command where
  /-- Assignments, a name with arguments, and redirections, in a line of the script. -/
  | simple (line : Nat) (assignments : List (String × List Part)) (words : List (List Part))
      (redirections : List (Nat × Target))
  /-- Commands that each read what the one before it writes. -/
  | pipeline (negated : Bool) (commands : List Command)
  /-- The second runs if the first succeeds. -/
  | both (first second : Command)
  /-- The second runs if the first fails. -/
  | either (first second : Command)
  | sequence (commands : List Command)
  | background (command : Command)
  | subshell (body : Command)
  | redirected (body : Command) (redirections : List (Nat × Target))
  /-- Repeats while the condition succeeds, or while it fails. -/
  | loop (whileFails : Bool) (condition body : Command)
  /-- Repeats for each word, or for each argument of the script. -/
  | each (name : String) (words : Option (List (List Part))) (body : Command)
  | choice (condition consequence : Command) (alternative : Option Command)
  /-- The first clause with a pattern that matches the subject. -/
  | select (subject : List Part) (clauses : List (List (List Part) × Command))
  | definition (name : String) (body : Command)

end

instance : Inhabited Part := ⟨.quotes⟩
instance : Inhabited Command := ⟨.sequence []⟩

/-- A word before anything in it is replaced. -/
abbrev Word := List Part

/-- A redirection: the number of the stream, and where it is led. -/
abbrev Redirection := Nat × Target

/-- The text of a word that has nothing to be replaced, with nothing quoted in it. -/
def Word.bare? (word : Word) : Option String :=
  (word.mapM fun part =>
    match part with
    | Part.char false c => some c
    | _ => none).map String.ofList

end CommandCompletion.Script
