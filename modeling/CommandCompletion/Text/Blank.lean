/-
Blank characters, and the three operations of the library that look for them:
trimming, and cutting a text into lines.

A character is blank when it has the `White_Space` property. The class is a
finite list, so it is written out; the list is the same wherever a blank
matters (between the words of a command line, around the fields of a
generator's output, in a configured command).
-/

set_option autoImplicit false

namespace CommandCompletion.Text

/-! ## The class -/

/-- Has the `White_Space` property: twenty-five characters, six of them in ASCII. -/
def isBlank (c : Char) : Bool :=
  let n := c.toNat
  (9 ≤ n && n ≤ 13) || n == 0x20 || n == 0x85 || n == 0xA0 || n == 0x1680 ||
    (0x2000 ≤ n && n ≤ 0x200A) || n == 0x2028 || n == 0x2029 || n == 0x202F ||
    n == 0x205F || n == 0x3000

/-! ## Trimming -/

/-- Leading blanks removed. -/
def trimStart (cs : List Char) : List Char := cs.dropWhile isBlank

/-- Trailing blanks removed. -/
def trimEnd (cs : List Char) : List Char := (cs.reverse.dropWhile isBlank).reverse

/-- Blanks removed on both sides. Those within stay as they are. -/
def trim (s : String) : String := String.ofList (trimEnd (trimStart s.toList))

/-- Nothing but blanks, the empty text included, so it says that there is nothing to read. -/
def isBlankText (s : String) : Bool := s.toList.all isBlank

/-! ## Lines -/

/-- Drops a carriage return that stands directly before the line feed which
ended the line. `line` is in reverse order. -/
def dropReturn : List Char → List Char
  | '\r' :: line => line
  | line => line

/-- The lines of `cs`, where `line` holds, in reverse, what was read of the
line in progress. A last line without a line feed counts when it has a
character, and keeps its carriage return. -/
def linesFrom (line : List Char) : List Char → List (List Char)
  | [] => if line.isEmpty then [] else [line.reverse]
  | c :: cs =>
    if c = '\n' then (dropReturn line).reverse :: linesFrom [] cs
    else linesFrom (c :: line) cs

/-- The lines of a text. Each ends at a line feed, or at a carriage return
directly followed by one. -/
def lines (s : String) : List String := (linesFrom [] s.toList).map String.ofList

end CommandCompletion.Text
