/-
Reading JSON values from tokens.

The reader is a machine with a stack: each token moves it from one `Phase` to
the next, and the stack holds the containers that are open. It takes the tokens
one by one, so a document may nest to any depth. How deep a document may nest,
and which numbers and strings are acceptable, is for the decoder to say.
-/
import CommandCompletion.Json.Value
import CommandCompletion.Json.Token

set_option autoImplicit false

namespace CommandCompletion.Json

/-- An open container, with what it holds so far in reverse, so that an item is added in front. -/
inductive Frame where
  | items (done : List Value)
  | members (done : List (Option String × Value))
  /-- An object in which the value of the last name is being read. -/
  | naming (done : List (Option String × Value)) (name : Option String)

/-- What may come next. Together with the stack this is all that the reader remembers. -/
inductive Phase where
  /-- A value. -/
  | value
  /-- A value, or the end of an array that has no items yet. -/
  | firstItem
  /-- A name, or the end of an object that has no members yet. -/
  | firstName
  /-- A name. -/
  | name
  /-- The colon after a name. -/
  | colon
  /-- What may follow this finished value. -/
  | after (value : Value)

/-- The value a token stands for on its own. Brackets, commas and colons stand for none. -/
def Token.scalar? : Token → Option Value
  | .null => some .null
  | .bool value => some (.bool value)
  | .number literal => some (.number literal)
  | .string text => some (.string text)
  | _ => none

/-- Starts a value: one that is a single token is finished at once, a container is put on the stack.
-/
def beginValue (stack : List Frame) : Token → Option (Phase × List Frame)
  | .openArray => some (.firstItem, .items [] :: stack)
  | .openObject => some (.firstName, .members [] :: stack)
  | token => token.scalar?.map fun value => (.after value, stack)

/-- Takes the name of a member. The value follows after a colon. -/
def beginMember (stack : List Frame) : Token → Option (Phase × List Frame)
  | .string name =>
    match stack with
    | .members done :: stack => some (.colon, .naming done name :: stack)
    | _ => none
  | _ => none

/-- Puts a finished value into the innermost container, and goes on or closes
the container. -/
def endValue (value : Value) (stack : List Frame) (token : Token) : Option (Phase × List Frame) :=
  match stack, token with
  | .items done :: stack, .comma => some (.value, .items (value :: done) :: stack)
  | .items done :: stack, .closeArray => some (.after (.array (value :: done).reverse), stack)
  | .naming done name :: stack, .comma => some (.name, .members ((name, value) :: done) :: stack)
  | .naming done name :: stack, .closeObject =>
    some (.after (.object ((name, value) :: done).reverse), stack)
  | _, _ => none

/-- One token. There is at most one way to go on, so the reader never goes back. -/
def step (phase : Phase) (stack : List Frame) (token : Token) : Option (Phase × List Frame) :=
  match phase with
  | .value => beginValue stack token
  | .firstItem =>
    match token, stack with
    | .closeArray, .items _ :: stack => some (.after (.array []), stack)
    | token, stack => beginValue stack token
  | .firstName =>
    match token, stack with
    | .closeObject, .members _ :: stack => some (.after (.object []), stack)
    | token, stack => beginMember stack token
  | .name => beginMember stack token
  | .colon => if token = .colon then some (.value, stack) else none
  | .after value => endValue value stack token

/-- All tokens, `none` where one cannot follow. -/
def run (phase : Phase) (stack : List Frame) : List Token → Option (Phase × List Frame)
  | [] => some (phase, stack)
  | token :: tokens =>
    match step phase stack token with
    | some (phase, stack) => run phase stack tokens
    | none => none

/-- The one value that the tokens write: all containers are closed, and nothing follows. -/
def Value.ofTokens? (tokens : List Token) : Option Value :=
  match run .value [] tokens with
  | some (.after value, []) => some value
  | _ => none

/-- The one value that the text writes; blanks around it are allowed. How deep it nests plays no
part. -/
def parse? (text : String) : Option Value := do
  Value.ofTokens? (← Token.ofChars? text.toList)

end CommandCompletion.Json
