/-
Byte offsets into a text.

Spans of words and positions of the cursor are counted in bytes of the UTF-8
form, while a text is a list of characters here. An offset is usable only if it
falls between two characters; every function below answers `none` for one that
does not, so no cut ever splits a character.
-/

set_option autoImplicit false

namespace CommandCompletion.Text

/-- Number of bytes of the UTF-8 form, counted without making it. -/
def byteLength (cs : List Char) : Nat := cs.foldr (fun c n => c.utf8Size + n) 0

/-- Splits `cs` at byte offset `n`. Answers `none` past the end or inside a
character. -/
def splitAtByte? (n : Nat) (cs : List Char) : Option (List Char × List Char) :=
  match n, cs with
  | 0, cs => some ([], cs)
  | _ + 1, [] => none
  | n + 1, c :: cs =>
    if c.utf8Size ≤ n + 1 then
      (splitAtByte? (n + 1 - c.utf8Size) cs).map fun (before, after) => (c :: before, after)
    else none
termination_by cs.length

/-- The characters between two byte offsets, `none` when the offsets are
reversed, out of range or inside a character. -/
def slice? (start stop : Nat) (cs : List Char) : Option (List Char) :=
  if start ≤ stop then do
    let (_, rest) ← splitAtByte? start cs
    let (middle, _) ← splitAtByte? (stop - start) rest
    return middle
  else none

/-! ## Cutting at characters of a class -/

/-- Characters after the last one that satisfies `p`; the whole text if none
does. -/
def afterLast (p : Char → Bool) (cs : List Char) : List Char :=
  (cs.reverse.takeWhile fun c => !p c).reverse

/-- Characters up to and including the last one that satisfies `p`; empty if
none does. -/
def uptoLast (p : Char → Bool) (cs : List Char) : List Char :=
  (cs.reverse.dropWhile fun c => !p c).reverse

/-- The two cuts put the text together again. -/
theorem uptoLast_append_afterLast (p : Char → Bool) (cs : List Char) :
    uptoLast p cs ++ afterLast p cs = cs := by
  have h : (cs.reverse.takeWhile fun c => !p c) ++ (cs.reverse.dropWhile fun c => !p c) =
      cs.reverse := List.takeWhile_append_dropWhile
  rw [uptoLast, afterLast, ← List.reverse_append, h, List.reverse_reverse]

/-- Cuts at every character that satisfies `p`, which itself is dropped.
`piece` holds the piece in progress, in reverse. -/
def cutFrom (p : Char → Bool) (piece : List Char) : List Char → List (List Char)
  | [] => [piece.reverse]
  | c :: cs => if p c then piece.reverse :: cutFrom p [] cs else cutFrom p (c :: piece) cs

/-- The texts between the characters that satisfy `p`: always one more than there are such
characters. -/
def cut (p : Char → Bool) (text : String) : List String :=
  (cutFrom p [] text.toList).map String.ofList

/-- Whether `s` begins with `start`, character by character. The empty text begins every other. -/
def beginsWith (start s : String) : Bool := start.toList.isPrefixOf s.toList

end CommandCompletion.Text
