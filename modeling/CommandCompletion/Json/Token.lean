/-
Tokens of JSON text.

The reader of values works on tokens, so everything about characters is settled
here: what a blank is, how a string is escaped, which digits make a number.
-/
import CommandCompletion.Text.Hexadecimal

set_option autoImplicit false

namespace CommandCompletion.Json

open Text (hexDigit?)

/-- The smallest units of JSON text. Blanks are none: they only part others. -/
inductive Token where
  | openArray | closeArray | openObject | closeObject | comma | colon
  | null
  | bool (value : Bool)
  | number (literal : String)
  | string (text : Option String)
deriving DecidableEq, Repr

/-- A blank of JSON: space, tab, line feed, carriage return. -/
def isBlank (c : Char) : Bool := c == ' ' || c == '\t' || c == '\n' || c == '\r'

/-! ## Strings -/

/-- What a string is made of: characters, and halves of surrogate pairs that
were written as escapes. -/
inductive Piece where
  | char (c : Char)
  | half (unit : Nat)
deriving DecidableEq, Repr

/-- The piece for an escaped 16-bit unit. -/
def Piece.ofUnit (unit : Nat) : Piece :=
  if 0xD800 ≤ unit && unit ≤ 0xDFFF then .half unit else .char (Char.ofNat unit)

/-- The text of the pieces: a high half directly followed by a low one is a
character, any other half has no text. -/
def Piece.join : List Piece → Option (List Char)
  | [] => some []
  | .char c :: pieces => (join pieces).map (c :: ·)
  | .half high :: .half low :: pieces =>
    if high < 0xDC00 && 0xDC00 ≤ low then
      (join pieces).map (Char.ofNat (0x10000 + (high - 0xD800) * 0x400 + (low - 0xDC00)) :: ·)
    else none
  | .half _ :: _ => none

/-- The 16-bit unit written as four hexadecimal digits. -/
def unit? (a b c d : Char) : Option Nat := do
  return ((← hexDigit? a) * 16 + (← hexDigit? b)) * 256 + (← hexDigit? c) * 16 + (← hexDigit? d)

/-- The character a short escape stands for. -/
def shortEscape? : Char → Option Char
  | '"' => some '"'
  | '\\' => some '\\'
  | '/' => some '/'
  | 'b' => some '\x08'
  | 'f' => some '\x0c'
  | 'n' => some '\n'
  | 'r' => some '\r'
  | 't' => some '\t'
  | _ => none

/-- The pieces of a string up to its closing quote, and what follows it. `done` holds the pieces
read so far in reverse. Control characters must be escaped, all else may stand for itself. -/
def readString (done : List Piece) : List Char → Option (List Piece × List Char)
  | [] => none
  | '"' :: rest => some (done.reverse, rest)
  | '\\' :: 'u' :: a :: b :: c :: d :: rest =>
    match unit? a b c d with
    | some unit => readString (Piece.ofUnit unit :: done) rest
    | none => none
  | '\\' :: c :: rest =>
    match shortEscape? c with
    | some c => readString (.char c :: done) rest
    | none => none
  | c :: rest => if c.toNat < 0x20 || c = '\\' then none else readString (.char c :: done) rest

/-- A string takes at least its closing quote. This is why reading tokens ends. -/
theorem readString_length {done : List Piece} {cs : List Char} {pieces : List Piece}
    {rest : List Char} (h : readString done cs = some (pieces, rest)) :
    rest.length < cs.length := by
  fun_induction readString done cs generalizing pieces rest with
  | case1 => simp at h
  | case2 => simp_all
  | case3 _ _ _ _ _ _ _ _ ih => have := ih h; simp only [List.length_cons]; omega
  | case4 => simp at h
  | case5 _ _ _ _ _ _ ih => have := ih h; simp only [List.length_cons]; omega
  | case6 => simp at h
  | case7 => simp at h
  | case8 => rename_i ih; have := ih h; simp only [List.length_cons]; omega

/-! ## Numbers -/

/-- Can stand in a number; whether the characters make one is looked at afterwards. -/
def isNumberChar (c : Char) : Bool := c.isDigit || "+-.eE".toList.contains c

/-- One digit or more. -/
def isDigits (cs : List Char) : Bool := !cs.isEmpty && cs.all Char.isDigit

/-- An exponent without its letter. -/
def isExponent : List Char → Bool
  | '+' :: cs | '-' :: cs => isDigits cs
  | cs => isDigits cs

/-- The part of a number after its integral digits. -/
def isNumberTail : List Char → Bool
  | [] => true
  | '.' :: cs =>
    let fraction := cs.takeWhile Char.isDigit
    !fraction.isEmpty &&
      match cs.dropWhile Char.isDigit with
      | [] => true
      | c :: cs => (c == 'e' || c == 'E') && isExponent cs
  | c :: cs => (c == 'e' || c == 'E') && isExponent cs

/-- A number without its sign: no leading zero unless it stands alone before a point or an exponent.
-/
def isUnsigned : List Char → Bool
  | '0' :: cs => isNumberTail cs
  | cs => isDigits (cs.takeWhile Char.isDigit) && isNumberTail (cs.dropWhile Char.isDigit)

/-- A number of JSON, with at most one sign in front. -/
def isNumber : List Char → Bool
  | '-' :: cs => isUnsigned cs
  | cs => isUnsigned cs

/-! ## Texts -/

/-- The tokens of a text, `none` if some part of it is no token. Two tokens need no blank between
them. -/
def Token.ofChars? : List Char → Option (List Token)
  | [] => some []
  | c :: cs =>
    if isBlank c then ofChars? cs
    else if c = '[' then (ofChars? cs).map (.openArray :: ·)
    else if c = ']' then (ofChars? cs).map (.closeArray :: ·)
    else if c = '\x7b' then (ofChars? cs).map (.openObject :: ·)
    else if c = '\x7d' then (ofChars? cs).map (.closeObject :: ·)
    else if c = ',' then (ofChars? cs).map (.comma :: ·)
    else if c = ':' then (ofChars? cs).map (.colon :: ·)
    else if c = '"' then
      match h : readString [] cs with
      | some (pieces, rest) =>
        have := readString_length h
        (ofChars? rest).map (.string ((Piece.join pieces).map String.ofList) :: ·)
      | none => none
    else if c.isAlpha then
      let word := c :: cs.takeWhile Char.isAlpha
      have : (cs.dropWhile Char.isAlpha).length ≤ cs.length := (List.dropWhile_sublist _).length_le
      let token : Option Token :=
        if word = "null".toList then some .null
        else if word = "true".toList then some (.bool true)
        else if word = "false".toList then some (.bool false)
        else none
      match token with
      | some token => (ofChars? (cs.dropWhile Char.isAlpha)).map (token :: ·)
      | none => none
    else
      let literal := c :: cs.takeWhile isNumberChar
      have : (cs.dropWhile isNumberChar).length ≤ cs.length := (List.dropWhile_sublist _).length_le
      if isNumber literal then
        (ofChars? (cs.dropWhile isNumberChar)).map (.number (String.ofList literal) :: ·)
      else none
termination_by cs => cs.length

end CommandCompletion.Json
