/-
Writing words on a command line, the other way round from reading them.

A word is written as it is, behind escapes, between double quotes or between single
quotes. A form does not serve for every word, nor in every shell: as they are only
characters without a meaning of their own can be written, nothing that is empty can be
written without quotes, and a quote cannot stand between quotes of its kind unless the
shell escapes it there.
-/
import CommandCompletion.Shell
import CommandCompletion.Text.Blank

set_option autoImplicit false

namespace CommandCompletion

namespace Shell

/-- The character has no meaning of its own: it is no blank, no quote and no escape character. So it
can be written as it is anywhere in a word. -/
def isOrdinary (shell : Shell) (c : Char) : Bool :=
  !Text.isBlank c && !shell.isQuote c && c != shell.escapeChar

/-- The text reads as itself. The empty text does too, but it is no word unless it is quoted. -/
def isPlain (shell : Shell) (text : String) : Bool := text.toList.all shell.isOrdinary

end Shell

/-- A form in which a word is written, quotes and escapes being the only means. -/
inductive Quoting where
  /-- As it is. -/
  | bare
  /-- Each character behind an escape. -/
  | escapes
  | doubleQuotes
  | singleQuotes
deriving DecidableEq, Repr, Inhabited

namespace Quoting

/-- The word stands between quotes, and so is never read as an option. -/
def quotes : Quoting → Bool
  | bare | escapes => false
  | doubleQuotes | singleQuotes => true

/-- A character between double quotes. What is special there is escaped, in shells that
escape there at all. -/
def betweenDoubleQuotes (shell : Shell) (c : Char) : List Char :=
  if shell.escapesInDoubleQuotes && (c == '"' || c == shell.escapeChar) then [shell.escapeChar, c]
  else [c]

/-- The raw form of a word, whether it serves for it or not. -/
def write (shell : Shell) (text : String) : Quoting → List Char
  | bare => text.toList
  | escapes => text.toList.flatMap fun c => [shell.escapeChar, c]
  | doubleQuotes => '"' :: (text.toList.flatMap (betweenDoubleQuotes shell) ++ ['"'])
  | singleQuotes => '\'' :: (text.toList ++ ['\''])

/-- The form serves for the word in this shell: what is written in it is read as the word. -/
def serves (shell : Shell) (text : String) : Quoting → Bool
  | bare => text != "" && shell.isPlain text
  | escapes => text != ""
  | doubleQuotes => shell.escapesInDoubleQuotes || !text.toList.contains '"'
  | singleQuotes => shell.hasSingleQuotes && !text.toList.contains '\''

/-- For every word there is a form, whatever the shell is. -/
theorem exists_serves (shell : Shell) (text : String) :
    ∃ quoting : Quoting, quoting.serves shell text = true := by
  by_cases hempty : text = ""
  · subst hempty
    exact ⟨doubleQuotes, by cases shell <;> decide⟩
  · exact ⟨escapes, bne_iff_ne.mpr hempty⟩

end Quoting

/-- A word as it stands on a line, with what separates it from the next. -/
structure WrittenWord where
  text : String
  quoting : Quoting
  /-- What stands behind it, up to the next word. -/
  gap : String
deriving DecidableEq, Repr, Inhabited

namespace WrittenWord

/-- The line that the words make up, one behind the other. Nothing stands in front of the first one.
-/
def line (shell : Shell) (written : List WrittenWord) : String :=
  String.ofList (written.flatMap fun word => word.quoting.write shell word.text ++ word.gap.toList)

/-- Each word is written in a form that serves for it, with blanks behind it. Only behind
the last one there may be none. -/
structure Separated (shell : Shell) (written : List WrittenWord) : Prop where
  serves : ∀ word ∈ written, word.quoting.serves shell word.text = true
  blank : ∀ word ∈ written, Text.isBlankText word.gap = true
  apart : ∀ word ∈ written.dropLast, word.gap ≠ ""

end WrittenWord

end CommandCompletion
