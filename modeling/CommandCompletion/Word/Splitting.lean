/-
Splitting a command line into words.

The line is read once, from left to right. Between words there is nothing to
remember; inside a word there is a `Draft`: its text so far, the quote that is
open, and whether the last character was an escape. Every line can be split:
an open quote or a trailing escape merely leaves the last word in progress.

* A blank outside quotes ends the word, and the word is complete.
* A quote opens a quoted part, which the same quote closes.
* The escape character makes the next one literal, outside quotes, and between
  double quotes where the shell says so.
* The end of the line leaves the word in progress.
-/
import CommandCompletion.Shell
import CommandCompletion.Text.Blank
import CommandCompletion.Word

set_option autoImplicit false

namespace CommandCompletion

/-- A word being read. This is all that the reader keeps of what it has read, beside the words that
have ended. -/
structure Draft where
  /-- Byte offset at which the raw word begins. -/
  start : Nat
  text : String := ""
  /-- The quote that is open. -/
  quote : Option Char := none
  /-- Some part was quoted. -/
  quoted : Bool := false
  /-- The next character is literal. -/
  escaped : Bool := false
deriving DecidableEq, Repr, Inhabited

namespace Draft

/-- The draft after one more character, `none` if that character is a blank that ends the word. The
three cases are an escaped character, one between quotes, and one outside. -/
def absorb? (shell : Shell) (draft : Draft) (c : Char) : Option Draft :=
  if draft.escaped then
    -- Even a blank or a quote is literal after an escape.
    some { draft with escaped := false, text := draft.text.push c }
  else
    match draft.quote with
    | some quote =>
      if c = quote then some { draft with quote := none }
      -- Between single quotes nothing is special but the quote that closes.
      else if c = shell.escapeChar && quote = '"' && shell.escapesInDoubleQuotes then
        some { draft with escaped := true }
      else some { draft with text := draft.text.push c }
    | none =>
      if Text.isBlank c then none
      else if shell.isQuote c then some { draft with quote := some c, quoted := true }
      else if c = shell.escapeChar then some { draft with escaped := true }
      else some { draft with text := draft.text.push c }

/-- The word whose raw form ends at byte offset `stop`. A quoted word is never an option, whatever
its text is. -/
def close (draft : Draft) (stop : Nat) (complete : Bool) : Word where
  text := draft.text
  complete := complete
  isOption := !draft.quoted && Word.looksLikeOption draft.text
  isQuoted := draft.quoted
  span := ⟨draft.start, stop⟩

end Draft

namespace Shell

/-- The words of the rest of a line that begins at byte offset `offset`, where `draft` is the word
in progress. One character is read at a time, and none twice. -/
def wordsFrom (shell : Shell) (offset : Nat) (draft : Option Draft) : List Char → List Word
  | [] => (draft.map fun d => d.close offset false).toList
  | c :: cs =>
    let next := offset + c.utf8Size
    match draft with
    | some d =>
      match d.absorb? shell c with
      | some d' => wordsFrom shell next (some d') cs
      | none => d.close offset true :: wordsFrom shell next none cs
    -- A blank between words is not absorbed, so no word begins with it.
    | none => wordsFrom shell next (({ start := offset } : Draft).absorb? shell c) cs

/-- The words of a line (specification, § E2.5, tokenizer). Only the last can be incomplete. -/
def words (shell : Shell) (line : String) : List Word := shell.wordsFrom 0 none line.toList

end Shell

end CommandCompletion
