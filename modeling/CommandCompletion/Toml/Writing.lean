/-
Writing TOML documents.

A document is written statement by statement, with an empty line before each
header. A list of more than one item has a line for each.
-/
import CommandCompletion.Toml.Reading

set_option autoImplicit false

namespace CommandCompletion.Toml

/-! ## Keys -/

/-- A key: bare if it can be, else in the plainest quotes. -/
def writeSimpleKey (key : String) : List Char :=
  let cs := key.toList
  if !cs.isEmpty && cs.all isKeyChar then cs
  else if !isPlain cs && fitsLiteral cs then Form.literal.write cs
  else Form.basic.write cs

/-- Keys parted by dots, without blanks between them. -/
def writeKey (path : List String) (key : String) : List Char :=
  path.flatMap (fun name => writeSimpleKey name ++ ['.']) ++ writeSimpleKey key

/-! ## Values -/

/-- Written items between brackets: in one line if there is one at most, else each on its own. -/
def writeItems : List (List Char) → List Char
  | [] => ['[', ']']
  | [item] => '[' :: (item ++ [']'])
  | items => ['[', '\n'] ++ items.flatMap (fun item => "    ".toList ++ item ++ [',', '\n']) ++ [']']

mutual

/-- A value as it is written. A float and a date are kept as the digits they were read from. -/
def Value.write : Value → List Char
  | .text text => writeQuoted text.toList
  | .integer n => (toString n).toList
  | .float literal => literal.toList
  | .bool value => (toString value).toList
  | .datetime literal => literal.toList
  | .array _ items => writeItems (writeEach items)
  | .table _ members =>
    ['\x7b', ' '] ++ (List.intersperse [',', ' '] (writeMembers members)).flatten ++ [' ', '\x7d']

/-- Every item as it is written; where the lines end is for `writeItems` to say. -/
def writeEach : List Value → List (List Char)
  | [] => []
  | value :: values => value.write :: writeEach values

/-- Every member as it is written in braces, key and value with an equals sign between them. -/
def writeMembers : List (String × Value) → List (List Char)
  | [] => []
  | (key, value) :: members =>
    (writeSimpleKey key ++ [' ', '=', ' '] ++ value.write) :: writeMembers members

end

/-! ## Documents -/

/-- A statement with the end of its line. Only a value can take several lines. -/
def Statement.write : Statement → List Char
  | .header path key => '[' :: (writeKey path key ++ [']', '\n'])
  | .arrayHeader path key => '[' :: '[' :: (writeKey path key ++ [']', ']', '\n'])
  | .assignment path key value => writeKey path key ++ [' ', '=', ' '] ++ value.write ++ ['\n']

/-- Begins a table, in an array or not. -/
def Statement.isHeader : Statement → Bool
  | .assignment _ _ _ => false
  | _ => true

/-- A document of these statements. An empty line stands before every header but one at the start.
-/
def write : List Statement → List Char
  | [] => []
  | first :: rest =>
    first.write ++ rest.flatMap fun statement =>
      (if statement.isHeader then ['\n'] else []) ++ statement.write

end CommandCompletion.Toml
