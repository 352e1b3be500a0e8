/-
Suggestions as JSON.

A suggestion is an object that leaves out a description it does not have. All
suggestions are written in one object together with the number of characters
they replace, in one line or over several. Only the latter may be painted, which
is left to whoever knows the terminal.
-/
import CommandCompletion.Json.Writing
import CommandCompletion.Suggestion

set_option autoImplicit false

namespace CommandCompletion.Rendering

open Json (Value)

/-- A suggestion as a JSON value, its fields in the order of their declaration. A description that
it does not have is left out. -/
def suggestionValue (suggestion : Suggestion) : Value :=
  .ofMembers <|
    [("name", .ofString suggestion.name), ("insertValue", .ofString suggestion.insertValue)] ++
    (suggestion.description.map fun text => ("description", Value.ofString text)).toList ++
    [("kind", .ofString suggestion.kind.name), ("priority", .ofNat suggestion.priority)]

/-- Suggestions as a JSON value: an object of two members, whatever they are. -/
def suggestionsValue (suggestions : Suggestions) : Value :=
  .ofMembers [
    ("suggestions", .array (suggestions.candidates.map suggestionValue)),
    ("charactersToDrop", .ofNat suggestions.charactersToDrop)]

/-- Suggestions in one line. No blank stands outside of strings. -/
def compactJson (suggestions : Suggestions) : String := (suggestionsValue suggestions).compact

/-- Suggestions over several lines, indented by `width` spaces for each level, of which the
outermost has none. -/
def indentedJson (width : Nat) (suggestions : Suggestions) : String :=
  (suggestionsValue suggestions).indented width 0

/-- Shows JSON in colours; `none` if it cannot read the text or there is nothing to paint for. -/
abbrev Painter := String → Option String

/-- How suggestions are written as JSON. Colours count only over several lines. -/
structure JsonFormat where
  /-- Over several lines. -/
  pretty : Bool := true
  colors : Bool := false
  /-- How many spaces a level is indented by. -/
  indent : Nat := 2
deriving DecidableEq, Repr, Inhabited

/-- Suggestions in this form. What cannot be painted stays as it is, so an answer is never lost. -/
def JsonFormat.render (format : JsonFormat) (paint : Painter) (suggestions : Suggestions) :
    String :=
  if format.pretty then
    let text := indentedJson format.indent suggestions
    if format.colors then (paint text).getD text else text
  else compactJson suggestions

end CommandCompletion.Rendering
