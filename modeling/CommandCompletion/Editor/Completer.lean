/-
Completions for a line editor: suggestions as replacements of a span.
-/
import CommandCompletion.Editor.Advisor
import CommandCompletion.Editor.Replacement

set_option autoImplicit false

namespace CommandCompletion.Editor

/-- A replacement of part of the line (specification, § E2.6). -/
structure Completion where
  value : String
  description : Option String
  /-- The bytes that are replaced; they end at the cursor. -/
  span : Span
  /-- A blank goes after the value, unless a path may go on. -/
  appendWhitespace : Bool
deriving DecidableEq, Repr, Inhabited

/-- Whether the text ends in a separator of the shell, and so names a directory that typing can go
on below. -/
def endsInSeparator (shell : Shell) (text : String) : Bool :=
  match text.toList.getLast? with
  | some c => shell.isSeparator c
  | none => false

/-- The completions for `typed`, which ends at the cursor. All of them replace the same part of it.
-/
def completions (shell : Shell) (typed : String) (suggestions : Suggestions) : List Completion :=
  let start := replaceStart typed suggestions.charactersToDrop
  let position := Text.byteLength typed.toList
  suggestions.candidates.map fun candidate => {
    value := candidate.insertValue
    description := candidate.description
    span := ⟨start, position⟩
    appendWhitespace := !endsInSeparator shell candidate.insertValue }

/-- The completions at a position of the line, which are those for the text left of
it; `none` if it is not between two characters. -/
def Advisor.complete {σ : Type} (advisor : Advisor σ) (runtime : Bool) (line : String)
    (position : Nat) : Recall σ (Option (List Completion)) := do
  match leftOf? line position with
  | none => return none
  | some typed =>
    match ← advisor.suggestions runtime typed with
    | none => return some []
    | some suggestions => return some (completions advisor.shell typed suggestions)

end CommandCompletion.Editor
