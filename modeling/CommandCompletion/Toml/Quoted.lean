/-
Quoted text: four forms, two with escapes and two without, each in one line or
over several.

A reader takes a form from the front of a text, after its opening quotes, and
answers what is quoted and what follows. The writer looks at a text once and
picks the form that shows it best: plain if it needs no escapes, without escapes
if that helps, over several lines if there are lines, and with escapes
otherwise.
-/
import CommandCompletion.Text.Hexadecimal

set_option autoImplicit false

namespace CommandCompletion.Toml

open Text (hexDigit? upperHexChar)

/-- Takes something from the front of a text and answers it with the rest, `none` if it is not
there. -/
abbrev Reader (α : Type) := List Char → Option (α × List Char)

/-- May stand for itself in every form: all but control characters, the tab
excepted. -/
def isTextChar (c : Char) : Bool := c == '\t' || (0x20 ≤ c.toNat && c.toNat != 0x7F)

/-- A space or a tab. -/
def isBlank (c : Char) : Bool := c == ' ' || c == '\t'

/-! ## Escapes -/

/-- The character with the number that the first `count` digits write; `none` if there is no such
character. -/
def readCode (count : Nat) : Reader Char := fun cs => do
  let digits ← (cs.take count).mapM hexDigit?
  let code := digits.foldl (fun n digit => n * 16 + digit) 0
  if digits.length = count && code.isValidChar then some (Char.ofNat code, cs.drop count) else none

/-- The character that an escape stands for; the backslash is already taken. -/
def readEscape : Reader Char
  | 'b' :: cs => some ('\x08', cs)
  | 't' :: cs => some ('\t', cs)
  | 'n' :: cs => some ('\n', cs)
  | 'f' :: cs => some ('\x0c', cs)
  | 'r' :: cs => some ('\r', cs)
  | 'e' :: cs => some ('\x1b', cs)
  | '"' :: cs => some ('"', cs)
  | '\\' :: cs => some ('\\', cs)
  | 'x' :: cs => readCode 2 cs
  | 'u' :: cs => readCode 4 cs
  | 'U' :: cs => readCode 8 cs
  | _ => none

/-- A code takes nothing back. -/
theorem readCode_length {count : Nat} {cs rest : List Char} {c : Char}
    (h : readCode count cs = some (c, rest)) : rest.length ≤ cs.length := by
  obtain ⟨digits, _, h⟩ := Option.bind_eq_some_iff.1 h
  dsimp only at h
  split at h
  · obtain ⟨rfl, rfl⟩ := Prod.mk.inj (Option.some.inj h)
    simp
  · simp at h

/-- An escape takes at least one character. -/
theorem readEscape_length {cs rest : List Char} {c : Char} (h : readEscape cs = some (c, rest)) :
    rest.length < cs.length := by
  unfold readEscape at h
  split at h
  case h_9 => have := readCode_length h; simp only [List.length_cons]; omega
  case h_10 => have := readCode_length h; simp only [List.length_cons]; omega
  case h_11 => have := readCode_length h; simp only [List.length_cons]; omega
  all_goals simp_all

/-- What is left when blanks and line ends are passed over. -/
def skipBreaks : List Char → List Char
  | ' ' :: cs => skipBreaks cs
  | '\t' :: cs => skipBreaks cs
  | '\n' :: cs => skipBreaks cs
  | '\r' :: '\n' :: cs => skipBreaks cs
  | cs => cs

/-- What follows a backslash that ends its line: all blanks and line ends are
passed over. `none` if something else follows on the line. -/
def skipLineEnd? (cs : List Char) : Option (List Char) :=
  match cs.dropWhile isBlank with
  | '\n' :: rest => some (skipBreaks rest)
  | '\r' :: '\n' :: rest => some (skipBreaks rest)
  | _ => none

/-- Passing over never adds. -/
theorem skipBreaks_length (cs : List Char) : (skipBreaks cs).length ≤ cs.length := by
  fun_induction skipBreaks cs with
  | case1 cs ih | case2 cs ih | case3 cs ih | case4 cs ih => simp only [List.length_cons]; omega
  | case5 => exact Nat.le_refl _

/-- A line end takes at least one character. -/
theorem skipLineEnd?_length {cs rest : List Char} (h : skipLineEnd? cs = some rest) :
    rest.length < cs.length := by
  have hd : (cs.dropWhile isBlank).length ≤ cs.length := (List.dropWhile_sublist _).length_le
  unfold skipLineEnd? at h
  split at h
  · rename_i tail heq
    have := skipBreaks_length tail
    simp only [Option.some.injEq] at h
    subst h
    rw [heq] at hd
    simp only [List.length_cons] at hd
    omega
  · rename_i tail heq
    have := skipBreaks_length tail
    simp only [Option.some.injEq] at h
    subst h
    rw [heq] at hd
    simp only [List.length_cons] at hd
    omega
  · simp at h

/-! ## Reading -/

/-- Text up to a double quote, in one line, with escapes. A line end within is refused. -/
def readBasic : Reader (List Char)
  | [] => none
  | '"' :: rest => some ([], rest)
  | '\\' :: cs =>
    match h : readEscape cs with
    | none => none
    | some (c, rest) =>
      have := readEscape_length h
      (readBasic rest).map fun (text, rest) => (c :: text, rest)
  | c :: cs =>
    if isTextChar c then (readBasic cs).map fun (text, rest) => (c :: text, rest) else none
termination_by cs => cs.length

/-- Text up to a single quote, in one line. A backslash is a character like any other. -/
def readLiteral : Reader (List Char)
  | [] => none
  | '\'' :: rest => some ([], rest)
  | c :: cs =>
    if isTextChar c then (readLiteral cs).map fun (text, rest) => (c :: text, rest) else none

/-- Three closing quotes, after up to two quotes that belong to the text. -/
def readClosing (quote : Char) : Reader (List Char)
  | a :: b :: c :: rest =>
    if a = quote && b = quote && c = quote then
      match rest with
      | d :: e :: rest =>
        if d = quote && e = quote then some ([d, e], rest)
        else if d = quote then some ([d], e :: rest)
        else some ([], d :: e :: rest)
      | [d] => if d = quote then some ([d], []) else some ([], [d])
      | [] => some ([], [])
    else none
  | _ => none

/-- Text up to three double quotes, over several lines, with escapes. -/
def readBasicLines : Reader (List Char)
  | [] => none
  | '\\' :: cs =>
    match h : skipLineEnd? cs with
    | some rest =>
      have := skipLineEnd?_length h
      readBasicLines rest
    | none =>
      match h : readEscape cs with
      | none => none
      | some (c, rest) =>
        have := readEscape_length h
        (readBasicLines rest).map fun (text, rest) => (c :: text, rest)
  | '\r' :: '\n' :: cs =>
    (readBasicLines cs).map fun (text, rest) => ('\r' :: '\n' :: text, rest)
  | c :: cs =>
    match if c = '"' then readClosing '"' (c :: cs) else none with
    | some closing => some closing
    | none =>
      if isTextChar c || c = '\n' then
        (readBasicLines cs).map fun (text, rest) => (c :: text, rest)
      else none
termination_by cs => cs.length

/-- Text up to three single quotes, over several lines. -/
def readLiteralLines : Reader (List Char)
  | [] => none
  | '\r' :: '\n' :: cs =>
    (readLiteralLines cs).map fun (text, rest) => ('\r' :: '\n' :: text, rest)
  | c :: cs =>
    match if c = '\'' then readClosing '\'' (c :: cs) else none with
    | some closing => some closing
    | none =>
      if isTextChar c || c = '\n' then
        (readLiteralLines cs).map fun (text, rest) => (c :: text, rest)
      else none

/-- The text without a line end that directly follows the opening quotes. -/
def dropFirstBreak : List Char → List Char
  | '\n' :: cs => cs
  | '\r' :: '\n' :: cs => cs
  | cs => cs

/-- Quoted text in any form, opening quotes included. Three quotes open the forms over several
lines. -/
def readQuoted : Reader (List Char)
  | '"' :: '"' :: '"' :: cs => readBasicLines (dropFirstBreak cs)
  | '\'' :: '\'' :: '\'' :: cs => readLiteralLines (dropFirstBreak cs)
  | '"' :: cs => readBasic cs
  | '\'' :: cs => readLiteral cs
  | _ => none

/-! ## Writing -/

/-- Must be written as an escape in every form that has escapes, and cannot
stand in the others. The tab and the line feed are not counted. -/
def isControl (c : Char) : Bool := c != '\t' && c != '\n' && (c.toNat < 0x20 || c.toNat == 0x7F)

/-- The most of this character that stand side by side; `run` is how many do directly before. Three
would close a form over several lines. -/
def longestRun (quote : Char) (run : Nat) : List Char → Nat
  | [] => run
  | c :: cs => if c = quote then longestRun quote (run + 1) cs else max run (longestRun quote 0 cs)

/-- How a character other than a double quote is written where there are
escapes. A line feed is one unless `lines` may be broken. -/
def escapeChar (lines : Bool) (c : Char) : List Char :=
  if c = '\\' then ['\\', '\\']
  else if c = '\x08' then ['\\', 'b']
  else if c = '\t' then ['\\', 't']
  else if c = '\n' then if lines then ['\n'] else ['\\', 'n']
  else if c = '\x0c' then ['\\', 'f']
  else if c = '\r' then ['\\', 'r']
  else if isControl c then
    ['\\', 'u', '0', '0', upperHexChar (c.toNat / 16), upperHexChar (c.toNat % 16)]
  else [c]

/-- The inside of a form with escapes. Side by side, up to `most` double quotes
stand for themselves and the next is escaped; `run` is how many have just
been written. -/
def escape (lines : Bool) (most run : Nat) : List Char → List Char
  | [] => []
  | c :: cs =>
    if c = '"' then
      if run = most then '\\' :: '"' :: escape lines most 0 cs
      else '"' :: escape lines most (run + 1) cs
    else escapeChar lines c ++ escape lines most 0 cs

/-- The forms of quoted text, with escapes or without, in one line or over several. -/
inductive Form where
  | basic | literal | basicLines | literalLines
deriving DecidableEq, Repr, Inhabited

/-- Needs neither escapes nor lines, so the plainest form serves. -/
def isPlain (cs : List Char) : Bool :=
  cs.all fun c => !isControl c && c != '\\' && c != '"' && c != '\n'

/-- Can stand between single quotes, where nothing can be escaped. -/
def fitsLiteral (cs : List Char) : Bool := cs.all fun c => !isControl c && c != '\'' && c != '\n'

/-- Can stand between three double quotes without escapes. -/
def fitsBasicLines (cs : List Char) : Bool :=
  (cs.all fun c => !isControl c && c != '\\') && longestRun '"' 0 cs ≤ 2

/-- Can stand between three single quotes. -/
def fitsLiteralLines (cs : List Char) : Bool :=
  (cs.all fun c => !isControl c) && longestRun '\'' 0 cs ≤ 2

/-- The form for a text: the first that serves without escapes, and one with escapes if none does.
-/
def Form.of (cs : List Char) : Form :=
  if isPlain cs then .basic
  else if fitsLiteral cs then .literal
  else if fitsBasicLines cs then .basicLines
  else if fitsLiteralLines cs then .literalLines
  else if cs.contains '\n' then .basicLines
  else .basic

/-- The line end that a form over several lines begins with, if the text has
lines. -/
def firstBreak (cs : List Char) : List Char := if cs.contains '\n' then ['\n'] else []

/-- A text in a form, with its quotes. -/
def Form.write (form : Form) (cs : List Char) : List Char :=
  match form with
  | .basic => '"' :: (escape false 0 0 cs ++ ['"'])
  | .literal => '\'' :: (cs ++ ['\''])
  | .basicLines =>
    ['"', '"', '"'] ++ firstBreak cs ++ escape true 2 0 cs ++ ['"', '"', '"']
  | .literalLines => ['\'', '\'', '\''] ++ firstBreak cs ++ cs ++ ['\'', '\'', '\'']

/-- A text as a value, in the form that suits it best. -/
def writeQuoted (cs : List Char) : List Char := (Form.of cs).write cs

end CommandCompletion.Toml
