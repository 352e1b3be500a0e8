/-
The forms in which suggestions are printed.
-/
import CommandCompletion.Failure
import CommandCompletion.Rendering.Json
import CommandCompletion.Rendering.Table

set_option autoImplicit false

namespace CommandCompletion

/-- A form of output (specification, § E1.5). -/
inductive OutputFormat where
  /-- JSON in one line. -/
  | json
  /-- JSON over several lines. -/
  | jsonPretty
  | table
  /-- The insert values, one a line. -/
  | plain
deriving DecidableEq, Repr, Inhabited

namespace OutputFormat

/-- The name of a form, as settings state it. -/
def name : OutputFormat → String
  | json => "json"
  | jsonPretty => "json-pretty"
  | table => "table"
  | plain => "plain"

/-- Every form, for looking one up by its name. -/
def all : List OutputFormat := [json, jsonPretty, table, plain]

/-- The form whose `name` is exactly this, as a settings file has to write it. -/
def ofExactName? (text : String) : Option OutputFormat := all.find? fun form => form.name == text

/-- The form of this name in any case; `pretty` and `text` are names too. This is how the command
line names one. -/
def ofName (text : String) : Except Failure OutputFormat :=
  match Text.lower text with
  | "json" => .ok json
  | "json-pretty" | "pretty" => .ok jsonPretty
  | "table" => .ok table
  | "plain" | "text" => .ok plain
  | _ => .error (.settingInvalid "display.format" text)

/-- Whether the form is JSON, in one line or over several. -/
def isJson : OutputFormat → Bool
  | json | jsonPretty => true
  | _ => false

end OutputFormat

/-- How suggestions are printed (specification, § E1.5). The colours are those that are asked for;
what a terminal takes is known elsewhere. -/
structure Formatter where
  format : OutputFormat
  colors : Bool
  /-- How many candidates are printed at most; `none` for all. -/
  maxSuggestions : Option Nat := none
deriving DecidableEq, Repr, Inhabited

namespace Formatter

/-- The suggestions that are printed: the first ones, up to the limit. The number of characters they
replace stays. -/
def shown (formatter : Formatter) (suggestions : Suggestions) : Suggestions :=
  match formatter.maxSuggestions with
  | some limit => { suggestions with candidates := suggestions.candidates.take limit }
  | none => suggestions

/-- The insert values, one a line. Nothing is escaped, so a value with a line feed takes several
lines. -/
def plainText (suggestions : Suggestions) : String :=
  String.intercalate "\n" (suggestions.candidates.map fun candidate => candidate.insertValue)

/-- The printed form of suggestions, with something to paint JSON with. The limit holds for every
form. -/
def renderWith (formatter : Formatter) (paint : Rendering.Painter) (suggestions : Suggestions) :
    String :=
  let shown := formatter.shown suggestions
  match formatter.format with
  | .json => { pretty := false : Rendering.JsonFormat }.render paint shown
  | .jsonPretty => { colors := formatter.colors : Rendering.JsonFormat }.render paint shown
  | .table => { colors := formatter.colors : Rendering.TableFormat }.render shown
  | .plain => plainText shown

/-- The printed form of suggestions where there is no terminal to paint for. Tables are coloured all
the same if colours are asked for. -/
def render (formatter : Formatter) (suggestions : Suggestions) : String :=
  formatter.renderWith (fun _ => none) suggestions

end Formatter

end CommandCompletion
