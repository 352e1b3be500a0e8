/-
Decimal literals and the range of doubles.

A literal may have any digits, but a number that is read as a double must not
overflow. A number overflows when it reaches the midpoint between the largest
double, `2 ^ 1024 - 2 ^ 971`, and the next step above it.

There are two ways of reading. The exact one rounds the number once: it is
compared with the midpoint in whole numbers, and the order of magnitude is
looked at first, so an exponent of any length costs nothing. The quick one keeps
as many digits as a word of 64 bits holds, rounds them, and multiplies them by a
rounded power of ten; near the end of the range it may judge differently.
-/

set_option autoImplicit false

namespace CommandCompletion.Text

/-! ## Literals -/

/-- The least positive number that is too large for a double. -/
def doubleLimit : Nat := Nat.pow 2 1024 - Nat.pow 2 970

/-- The value of a decimal digit. -/
def digitValue (c : Char) : Nat := c.toNat - '0'.toNat

/-- The value of decimal digits. -/
def digitsValue (digits : List Char) : Nat := digits.foldl (fun n c => n * 10 + digitValue c) 0

/-- A sign. -/
def isSign (c : Char) : Bool := c == '+' || c == '-'

/-- The exponent written after the letter, 0 if there is none. -/
def exponentValue : List Char → Int
  | '-' :: digits => -(digitsValue digits)
  | '+' :: digits => digitsValue digits
  | digits => digitsValue digits

/-- The parts of a literal but for its sign. -/
structure Decimal where
  /-- Digits before the point. -/
  whole : List Char
  /-- Digits after the point. -/
  fraction : List Char
  exponent : Int
deriving Repr, Inhabited

/-- The parts of a literal that is well formed. Its sign is left out, since it does not matter for
the range. -/
def Decimal.ofLiteral (literal : List Char) : Decimal :=
  let unsigned := literal.dropWhile isSign
  let tail := unsigned.dropWhile Char.isDigit
  { whole := unsigned.takeWhile Char.isDigit
    fraction := match tail with
      | '.' :: tail => tail.takeWhile Char.isDigit
      | _ => []
    exponent := exponentValue ((tail.dropWhile fun c => c != 'e' && c != 'E').drop 1) }

/-! ## Exact reading -/

/-- Whether the number of this literal fits a double, rounded once. -/
def fitsDouble (literal : List Char) : Bool :=
  let decimal := Decimal.ofLiteral literal
  let digits := (decimal.whole ++ decimal.fraction).dropWhile (· == '0')
  let scale : Int := decimal.exponent - decimal.fraction.length
  let order : Int := digits.length + scale
  if digits.isEmpty || order ≤ 300 then true
  else if 320 ≤ order then false
  else if 0 ≤ scale then decide (digitsValue digits * Nat.pow 10 scale.toNat < doubleLimit)
  else decide (digitsValue digits < doubleLimit * Nat.pow 10 (-scale).toNat)

/-! ## Quick reading -/

/-- The nearest number with at most 53 binary digits; of two nearest, the even one. -/
def roundToDouble (n : Nat) : Nat :=
  let unit := Nat.pow 2 (n.log2 + 1 - 53)
  let lower := n / unit
  let rest := n % unit
  if 2 * rest < unit || (2 * rest == unit && lower % 2 == 0) then lower * unit
  else (lower + 1) * unit

/-- Puts digits behind the number `n` while a word holds the result: the number,
and the digits that were left. -/
def gatherWord (n : Nat) : List Char → Nat × List Char
  | [] => (n, [])
  | c :: cs =>
    let longer := n * 10 + digitValue c
    if longer < Nat.pow 2 64 then gatherWord longer cs else (n, c :: cs)

/-- Whether the number of this literal stays finite when it is read in the quick
way. Digits before the point that the word has no room for count as zeros, those
after it not at all. -/
def fitsQuickDouble (literal : List Char) : Bool :=
  let decimal := Decimal.ofLiteral literal
  let (front, dropped) := gatherWord 0 decimal.whole
  let (kept, unread) := gatherWord front decimal.fraction
  let read : Int := (decimal.fraction.length : Int) - unread.length
  let scale : Int := decimal.exponent + dropped.length - read
  if kept = 0 || scale < 0 then true
  else if 308 < scale then false
  else decide (roundToDouble kept * roundToDouble (Nat.pow 10 scale.toNat) < doubleLimit)

end CommandCompletion.Text
