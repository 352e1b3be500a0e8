/-
Words of a command line.

A word is what the shell would hand to a program: the text with quotes and
escapes undone. Beside the text it remembers where the raw form stood and what
later stages found out about it.
-/
import CommandCompletion.Text.Bytes

set_option autoImplicit false

namespace CommandCompletion

/-- A range of byte offsets, `stop` excluded. Offsets count the bytes of a line in UTF-8, not its
characters. -/
structure Span where
  start : Nat
  stop : Nat
deriving DecidableEq, Repr, Inhabited

/-- A word of a command line (specification, § 3, token). The flags about options and paths are set
by different stages, each once. -/
structure Word where
  /-- The word with quotes and escapes undone. -/
  text : String
  /-- False only while the cursor is still inside the word. -/
  complete : Bool
  /-- Reads as an option: a dash and at least one more byte, nothing quoted. -/
  isOption : Bool
  /-- Taken as an option that descendants inherit, or as a value of one. -/
  isPersistent : Bool := false
  /-- Names a place below an existing directory. -/
  isPath : Bool := false
  /-- Such a path that ends in a separator. -/
  isPathComplete : Bool := false
  /-- Some part of the word was quoted. -/
  isQuoted : Bool := false
  /-- Where the raw word stands on the line. -/
  span : Span
deriving DecidableEq, Repr, Inhabited

namespace Word

/-- A dash followed by at least one more byte (specification, § E2.5). A dash alone is an ordinary
word, which often stands for the standard input. -/
def looksLikeOption (text : String) : Bool :=
  decide (1 < Text.byteLength text.toList) && text.toList.head? == some '-'

/-- An unquoted word that stands at the start of a line of its own, for words that come from nowhere
else. -/
def ofText (text : String) (complete : Bool) : Word where
  text := text
  complete := complete
  isOption := looksLikeOption text
  span := ⟨0, Text.byteLength text.toList⟩

/-- The word about to be typed at `offset`: empty and in progress, so that anything fits it. -/
def emptyAt (offset : Nat) : Word :=
  { ofText "" false with span := ⟨offset, offset⟩ }

/-- The same word, flagged as persistent or not. What else is known of it stays. -/
def withPersistent (word : Word) (flag : Bool) : Word := { word with isPersistent := flag }

/-- Number of characters of the raw word on `line`, quotes and escapes included. If the span does
not fit the line, the text is counted. -/
def rawLength (word : Word) (line : String) : Nat :=
  match Text.slice? word.span.start word.span.stop line.toList with
  | some raw => raw.length
  | none => word.text.length

end Word

end CommandCompletion
