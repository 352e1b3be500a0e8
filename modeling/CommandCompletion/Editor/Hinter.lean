/-
The hint after the cursor: how the best candidate would go on.
-/
import CommandCompletion.Editor.Advisor
import CommandCompletion.Editor.Replacement
import CommandCompletion.Text.Blank

set_option autoImplicit false

namespace CommandCompletion

/-- Byte offset of the first character that satisfies `p`, `none` if no character does. -/
def Text.findByte? (p : Char → Bool) : List Char → Option Nat
  | [] => none
  | c :: cs => if p c then some 0 else (findByte? p cs).map fun offset => c.utf8Size + offset

namespace Editor

/-! ## One hint -/

/-- Whether a hint makes sense: at the end of a line that ends in a word. In the middle of a line it
would stand in front of what follows. -/
def wantsHint (line : String) (position : Nat) : Bool :=
  position == Text.byteLength line.toList && !Text.isBlankText line &&
    !(line.toList.getLast?.any Text.isBlank)

/-- What is left of `value` after `start`, if it begins with it and goes on. Case counts, and so
does every quote that was typed. -/
def continuation? (start value : String) : Option String :=
  if Text.beginsWith start value && start.length < value.length then
    some (String.ofList (value.toList.drop start.length))
  else none

/-- What the first candidate adds to the part of the line it replaces; empty if it adds nothing.
`none` if that part cannot be cut out of the line. Other candidates are not looked at, also if the
first one adds nothing. -/
def hintOf? (line : String) : Option Suggestions → Option String
  | none | some ⟨[], _⟩ => some ""
  | some ⟨best :: _, dropped⟩ => do
    let typed ← rightOf? line (replaceStart line dropped)
    return (continuation? typed best.insertValue).getD ""

/-- The hint as it is shown in colour: italic and dark grey. Nothing is shown as nothing. -/
def painted (hint : String) : String :=
  if hint.isEmpty then "" else "\x1b[3;90m" ++ hint ++ "\x1b[0m"

/-- The first part of a hint: up to its first separator, which is included. `none`
if that part cannot be cut out of the hint. -/
def nextPart? (shell : Shell) (hint : String) : Option String :=
  match Text.findByte? shell.isSeparator hint.toList with
  | none => some hint
  | some start => do
    let rest ← rightOf? hint start
    let size := match rest.toList with
      | [] => 0
      | separator :: _ => separator.utf8Size
    leftOf? hint (start + size)

/-! ## The hinter -/

/-- A look at the line that is edited, for a hint to show: all that an editor tells the hinter. -/
structure Look where
  line : String
  /-- Byte offset of the cursor. -/
  position : Nat
  /-- An engine can be asked now. -/
  runtime : Bool := true
  coloured : Bool := false
deriving DecidableEq, Repr, Inhabited

/-- A hint as it is shown, which is not what is inserted: the colours are left behind then. -/
def Look.shown (look : Look) (hint : String) : String :=
  if look.coloured then painted hint else hint

/-- Remembers the hint of the last look, empty if it gave none. Accepting a hint asks nobody again.
-/
structure Hinter (σ : Type) extends Advisor σ where
  current : String := ""

namespace Hinter

variable {σ : Type}

/-- What is shown for a look, and the hinter after it; `none` if the line could not be cut. A look
that wants no hint forgets the one before. -/
def handle (hinter : Hinter σ) (look : Look) : Recall σ (Option (String × Hinter σ)) := do
  if wantsHint look.line look.position then
    match hintOf? look.line (← hinter.suggestions look.runtime look.line) with
    | none => return none
    | some hint => return some (look.shown hint, { hinter with current := hint })
  else return some ("", { hinter with current := "" })

/-- What is inserted if the hint is accepted: all of it. -/
def completeHint (hinter : Hinter σ) : String := hinter.current

/-- What is inserted if only the next part of it is; `none` if it could not be cut. -/
def nextHintToken? (hinter : Hinter σ) : Option String := nextPart? hinter.shell hinter.current

end Hinter

end Editor

end CommandCompletion
