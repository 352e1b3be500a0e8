/-
Scalars that stand without quotes: truth values, numbers, dates and times.

A scalar is a run of characters with no blank in it, except for the one space
that may part a date from a time. The run is taken first and then looked at as a
whole, so `1979-05-27` is a date and never a subtraction.
-/
import CommandCompletion.Text.Bytes
import CommandCompletion.Text.Decimal
import CommandCompletion.Toml.Quoted
import CommandCompletion.Toml.Value

set_option autoImplicit false

namespace CommandCompletion.Toml

open Text (hexDigit? digitsValue)

/-! ## Integers -/

/-- Digits of which two may be parted by an underscore: it stands between digits only, and never
twice. -/
def isGrouped (isDigit : Char → Bool) : List Char → Bool
  | [] => false
  | [c] => isDigit c
  | c :: '_' :: cs => isDigit c && isGrouped isDigit cs
  | c :: cs => isDigit c && isGrouped isDigit cs

/-- The text without underscores. -/
def ungrouped (cs : List Char) : List Char := cs.filter (· != '_')

/-- Decimal digits without a needless zero in front. -/
def isWhole (cs : List Char) : Bool :=
  isGrouped Char.isDigit cs && (cs.head? != some '0' || cs.length == 1)

/-- A digit of a number system. -/
def isDigitOf (base : Nat) (c : Char) : Bool := (hexDigit? c).any (· < base)

/-- The value of digits of a number system. -/
def valueOf (base : Nat) (digits : List Char) : Nat :=
  digits.foldl (fun n c => n * base + (hexDigit? c).getD 0) 0

/-- Digits of a number system, as a number. -/
def grouped? (base : Nat) (cs : List Char) : Option Nat :=
  if isGrouped (isDigitOf base) cs then some (valueOf base (ungrouped cs)) else none

/-- Decimal digits, as a number. -/
def whole? (cs : List Char) : Option Nat :=
  if isWhole cs then some (digitsValue (ungrouped cs)) else none

/-- An integer. Only a decimal one may have a sign, and it has no needless zero in front. -/
def integer? : List Char → Option Int
  | '0' :: 'x' :: cs => (grouped? 16 cs).map Int.ofNat
  | '0' :: 'o' :: cs => (grouped? 8 cs).map Int.ofNat
  | '0' :: 'b' :: cs => (grouped? 2 cs).map Int.ofNat
  | '+' :: cs => (whole? cs).map Int.ofNat
  | '-' :: cs => (whole? cs).map fun n => -Int.ofNat n
  | cs => (whole? cs).map Int.ofNat

/-! ## Floats -/

/-- Without a sign in front. -/
def unsigned : List Char → List Char
  | '+' :: cs | '-' :: cs => cs
  | cs => cs

/-- What may stand in the digits of a float. -/
def isGroupChar (c : Char) : Bool := c.isDigit || c == '_'

/-- An exponent with its letter. -/
def isExponent : List Char → Bool
  | c :: cs => (c == 'e' || c == 'E') && isGrouped Char.isDigit (unsigned cs)
  | [] => false

/-- What follows the whole part of a float: a fraction, an exponent, or one after the other. Without
either it is an integer. -/
def isFloatTail : List Char → Bool
  | '.' :: cs =>
    let exponent := cs.dropWhile isGroupChar
    isGrouped Char.isDigit (cs.takeWhile isGroupChar) && (exponent.isEmpty || isExponent exponent)
  | cs => isExponent cs

/-- A float, infinity and not-a-number included. -/
def isFloat (cs : List Char) : Bool :=
  let cs := unsigned cs
  cs == "inf".toList || cs == "nan".toList ||
    (isWhole (cs.takeWhile isGroupChar) && isFloatTail (cs.dropWhile isGroupChar))

/-! ## Dates and times -/

/-- A number of exactly `width` digits. -/
def fixed? (width : Nat) (cs : List Char) : Option Nat :=
  if cs.length == width && cs.all Char.isDigit then some (digitsValue cs) else none

/-- The number of days of a month. -/
def daysOfMonth (year month : Nat) : Nat :=
  if month == 2 then
    if year % 4 == 0 && (year % 100 != 0 || year % 400 == 0) then 29 else 28
  else if month == 4 || month == 6 || month == 9 || month == 11 then 30
  else 31

/-- A day of the calendar: `1979-05-27`. Leap years are counted. -/
def isDate (cs : List Char) : Bool :=
  match Text.cutFrom (· == '-') [] cs with
  | [year, month, day] =>
    match fixed? 4 year, fixed? 2 month, fixed? 2 day with
    | some year, some month, some day =>
      1 ≤ month && month ≤ 12 && 1 ≤ day && day ≤ daysOfMonth year month
    | _, _, _ => false
  | _ => false

/-- An hour and a minute. -/
def isHourMinute (hour minute : List Char) : Bool :=
  (fixed? 2 hour).any (· ≤ 23) && (fixed? 2 minute).any (· ≤ 59)

/-- A second, with a fraction or without; a leap second is one. -/
def isSecond (cs : List Char) : Bool :=
  match Text.cutFrom (· == '.') [] cs with
  | [second] => (fixed? 2 second).any (· ≤ 60)
  | [second, fraction] =>
    (fixed? 2 second).any (· ≤ 60) && !fraction.isEmpty && fraction.all Char.isDigit
  | _ => false

/-- A time of day; the seconds may be left out. -/
def isTime (cs : List Char) : Bool :=
  match Text.cutFrom (· == ':') [] cs with
  | [hour, minute] => isHourMinute hour minute
  | [hour, minute, second] => isHourMinute hour minute && isSecond second
  | _ => false

/-- How far a time is from universal time. -/
def isOffset : List Char → Bool
  | ['Z'] | ['z'] => true
  | c :: cs =>
    (c == '+' || c == '-') &&
      match Text.cutFrom (· == ':') [] cs with
      | [hour, minute] => isHourMinute hour minute
      | _ => false
  | [] => false

/-- What may stand in a time of day. -/
def isTimeChar (c : Char) : Bool := c.isDigit || c == ':' || c == '.'

/-- A date, a time, or a date and a time with an offset or without. -/
def isDatetime (cs : List Char) : Bool :=
  isDate cs || isTime cs ||
    (isDate (cs.take 10) &&
      match cs.drop 10 with
      | c :: cs =>
        let offset := cs.dropWhile isTimeChar
        (c == 'T' || c == 't' || c == ' ') && isTime (cs.takeWhile isTimeChar) &&
          (offset.isEmpty || isOffset offset)
      | [] => false)

/-! ## All scalars -/

/-- May stand in a scalar. -/
def isScalarChar (c : Char) : Bool := c.isAlphanum || "+-_.:".toList.contains c

/-- The run of characters that a scalar is made of, and what follows it. What it means plays no
part, but for the space in a date. -/
def scalarRun (cs : List Char) : List Char × List Char :=
  let run := cs.takeWhile isScalarChar
  match cs.dropWhile isScalarChar with
  | ' ' :: c :: rest =>
    -- This is the space between a date and a time, unless no time follows.
    if isDate run && c.isDigit then
      (run ++ ' ' :: (c :: rest).takeWhile isScalarChar, (c :: rest).dropWhile isScalarChar)
    else (run, ' ' :: c :: rest)
  | rest => (run, rest)

/-- The value of a scalar, looked at as a whole; `none` if it is of no kind. -/
def scalar? (cs : List Char) : Option Value :=
  if cs == "true".toList then some (.bool true)
  else if cs == "false".toList then some (.bool false)
  else
    match integer? cs with
    | some n => some (.integer n)
    | none =>
      if isFloat cs then some (.float (String.ofList (ungrouped cs)))
      else if isDatetime cs then some (.datetime (String.ofList cs))
      else none

/-- Takes a scalar, which ends where a character comes that none may have. -/
def readScalar : Reader Value := fun cs =>
  let (run, rest) := scalarRun cs
  (scalar? run).map fun value => (value, rest)

end CommandCompletion.Toml
