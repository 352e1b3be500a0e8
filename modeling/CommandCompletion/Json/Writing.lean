/-
Writing JSON values, in one line or indented.

Both forms write the same tokens; they differ in the blanks between them. In
the indented form each item and member has a line of its own, a container
without content is written closed, and a name is parted from its value by a
colon and a space.
-/
import CommandCompletion.Json.Value
import CommandCompletion.Text.Hexadecimal

set_option autoImplicit false

namespace CommandCompletion.Json

open Text (hexChar)

/-! ## Strings -/

/-- How a character is written in a string. Quotes, backslashes and control
characters are escaped, all else stands for itself. -/
def escapeChar (c : Char) : List Char :=
  if c = '"' then ['\\', '"']
  else if c = '\\' then ['\\', '\\']
  else if c = '\x08' then ['\\', 'b']
  else if c = '\x0c' then ['\\', 'f']
  else if c = '\n' then ['\\', 'n']
  else if c = '\r' then ['\\', 'r']
  else if c = '\t' then ['\\', 't']
  else if c.toNat < 0x20 then
    ['\\', 'u', '0', '0', hexChar (c.toNat / 16), hexChar (c.toNat % 16)]
  else [c]

/-- A quoted string. A string without a text is written as half a surrogate
pair. -/
def writeString : Option String → String
  | some text => String.ofList ('"' :: (text.toList.flatMap escapeChar ++ ['"']))
  | none => "\"\\ud800\""

/-! ## Values -/

namespace Value

mutual

/-- A value in one line, without blanks. Numbers and names are written as they were read. -/
def compact : Value → String
  | null => "null"
  | bool true => "true"
  | bool false => "false"
  | number literal => literal
  | string text => writeString text
  | array items => "[" ++ compactItems items ++ "]"
  | object members => "\x7b" ++ compactMembers members ++ "\x7d"

/-- Items, parted by commas. The last one has none behind it, hence three cases. -/
def compactItems : List Value → String
  | [] => ""
  | [value] => compact value
  | value :: values => compact value ++ "," ++ compactItems values

/-- Members, parted by commas, each name in front of its value. -/
def compactMembers : List (Option String × Value) → String
  | [] => ""
  | [(name, value)] => writeString name ++ ":" ++ compact value
  | (name, value) :: members =>
    writeString name ++ ":" ++ compact value ++ "," ++ compactMembers members

end

/-- A new line that is indented `depth` times by `width` spaces. It is put in front of what stands
on that line. -/
def newline (width depth : Nat) : String :=
  "\n" ++ String.ofList (List.replicate (width * depth) ' ')

mutual

/-- A value whose containers spread over indented lines, `width` spaces for
each level; `depth` is the level the value stands on. -/
def indented (width depth : Nat) : Value → String
  | array [] => "[]"
  | array items =>
    "[" ++ newline width (depth + 1) ++ indentedItems width (depth + 1) items ++
      newline width depth ++ "]"
  | object [] => "\x7b\x7d"
  | object members =>
    "\x7b" ++ newline width (depth + 1) ++ indentedMembers width (depth + 1) members ++
      newline width depth ++ "\x7d"
  | null => "null"
  | bool true => "true"
  | bool false => "false"
  | number literal => literal
  | string text => writeString text

/-- Items, each on a line of its own, at the depth of the container they are in. -/
def indentedItems (width depth : Nat) : List Value → String
  | [] => ""
  | [value] => indented width depth value
  | value :: values =>
    indented width depth value ++ "," ++ newline width depth ++ indentedItems width depth values

/-- Members, each on a line of its own, as items are. -/
def indentedMembers (width depth : Nat) : List (Option String × Value) → String
  | [] => ""
  | [(name, value)] => writeString name ++ ": " ++ indented width depth value
  | (name, value) :: members =>
    writeString name ++ ": " ++ indented width depth value ++ "," ++ newline width depth ++
      indentedMembers width depth members

end

end Value

end CommandCompletion.Json
