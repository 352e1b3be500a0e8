/-
Writing arguments: `echo` and `printf`.

A format is gone through as often as it takes to use up the arguments. The shell
has an `echo` and a `printf` of its own, which differ from the programs of these
names in the escapes that they know and in the words of their complaints.
-/
import CommandCompletion.Script.Arithmetic
import CommandCompletion.Script.Utility.Basic
import CommandCompletion.Text.Decimal

set_option autoImplicit false

namespace CommandCompletion.Script

/-! ## Escapes -/

/-- A digit of the octal system. -/
def isOctal (c : Char) : Bool := '0' ≤ c && c ≤ '7'

/-- The octet that digits of a base write. -/
def octetOf (base : Nat) (digits : List Char) : Char :=
  Char.ofNat (digits.foldl (fun n c => n * base + (Text.hexDigit? c).getD 0) 0 % 256)

/-- The octet that a short escape stands for. -/
def shortEscape? : Char → Option Char
  | 'a' => some (Char.ofNat 7)
  | 'b' => some (Char.ofNat 8)
  | 't' => some '\t'
  | 'n' => some '\n'
  | 'v' => some (Char.ofNat 11)
  | 'f' => some (Char.ofNat 12)
  | 'r' => some '\r'
  | 'e' => some (Char.ofNat 27)
  | '\\' => some '\\'
  | _ => none

/-- Which escapes are known. -/
structure Escapes where
  /-- A zero may stand in front of octal digits. -/
  zero : Bool := false
  /-- A `c` ends everything. -/
  ending : Bool := false
  /-- An `x` is followed by hexadecimal digits. -/
  hexadecimal : Bool := false
  /-- A backslash before a double quote is dropped. -/
  quotes : Bool := false

/-- What stands behind a backslash: the octets that it writes, `none` for the
end of everything, and what follows. -/
def Escapes.read (escapes : Escapes) : List Char → Option (List Char) × List Char
  | [] => (some ['\\'], [])
  | c :: cs =>
    if escapes.ending && c = 'c' then (none, [])
    else if isOctal c then
      let cs' := if escapes.zero && c = '0' then cs else c :: cs
      let digits := (cs'.take 3).takeWhile isOctal
      (some [octetOf 8 digits], cs'.drop digits.length)
    else if escapes.hexadecimal && c = 'x' then
      let digits := (cs.take 2).takeWhile fun c => (Text.hexDigit? c).isSome
      if digits.isEmpty then (some ['\\', 'x'], cs)
      else (some [octetOf 16 digits], cs.drop digits.length)
    else if escapes.quotes && c = '"' then (some ['"'], cs)
    else match shortEscape? c with
      | some octet => (some [octet], cs)
      | none => (some ['\\', c], cs)

/-- A text with its escapes replaced, and whether the end of everything was
among them. `rounds` bounds the number of parts. -/
def Escapes.replace (escapes : Escapes) : (rounds : Nat) → List Char → List Char × Bool
  | 0, _ => ([], false)
  | _, [] => ([], false)
  | rounds + 1, '\\' :: cs =>
    match escapes.read cs with
    | (none, _) => ([], true)
    | (some octets, rest) =>
      let (text, ended) := escapes.replace rounds rest
      (octets ++ text, ended)
  | rounds + 1, c :: cs =>
    let (text, ended) := escapes.replace rounds cs
    (c :: text, ended)

/-- A text with its escapes replaced, and whether the end of everything was
among them. -/
def Escapes.replaceAll (escapes : Escapes) (text : String) : String × Bool :=
  let (cs, ended) := escapes.replace (text.length + 1) text.toList
  (String.ofList cs, ended)

/-- The escapes in an argument of the shell. -/
def Escapes.inArgument : Escapes := { zero := true, ending := true }

/-- Writes the arguments, parted by spaces. The shell's own takes `-n` and
escapes, the program several letters. -/
def echo (inShell : Bool) (request : Request) : Result :=
  let isOption := fun arg : String =>
    if inShell then arg == "-n"
    else arg.startsWith "-" && 1 < arg.length && (arg.toList.drop 1).all "neE".toList.contains
  let chosen := if inShell then request.args.take 1 |>.takeWhile isOption
    else request.args.takeWhile isOption
  let letters := chosen.flatMap String.toList
  let words := String.intercalate " " (request.args.drop chosen.length)
  let active := inShell || letters.reverse.find? (fun c => c == 'e' || c == 'E') == some 'e'
  let (text, ended) :=
    if active then { Escapes.inArgument with hexadecimal := !inShell }.replaceAll words
    else (words, false)
  .ofText (if ended || letters.contains 'n' then text else text ++ "\n")

/-! ## Numbers -/

/-- A number that is not negative, as a fraction. -/
structure Fraction where
  top : Nat
  bottom : Nat
deriving Repr, Inhabited

namespace Fraction

/-- The nearest whole number to a fraction; a half goes to the even one. -/
def round (top bottom : Nat) : Nat :=
  let whole := top / bottom
  let rest := 2 * (top % bottom)
  if rest < bottom || (rest = bottom && whole % 2 = 0) then whole else whole + 1

/-- The nearest number with at most so many binary digits. -/
def roundToBits (count : Nat) (x : Fraction) : Fraction :=
  if x.top = 0 then x
  else
    -- Scaled so that the whole part has about the wanted number of digits.
    let size : Int := (x.top.log2 : Int) - x.bottom.log2
    let shift : Int := count - 1 - size
    let scaled := fun shift : Int =>
      if 0 ≤ shift then (x.top * Nat.pow 2 shift.toNat, x.bottom)
      else (x.top, x.bottom * Nat.pow 2 (-shift).toNat)
    let shift := if (scaled shift).1 / (scaled shift).2 < Nat.pow 2 (count - 1) then shift + 1 else shift
    let kept := round (scaled shift).1 (scaled shift).2
    if 0 ≤ shift then ⟨kept, Nat.pow 2 shift.toNat⟩ else ⟨kept * Nat.pow 2 (-shift).toNat, 1⟩

/-- The number that a literal writes. -/
def ofLiteral (literal : List Char) : Fraction :=
  let decimal := Text.Decimal.ofLiteral literal
  let digits := Text.digitsValue (decimal.whole ++ decimal.fraction)
  let scale : Int := decimal.exponent - decimal.fraction.length
  if 0 ≤ scale then ⟨digits * Nat.pow 10 (min scale 5000).toNat, 1⟩
  else ⟨digits, Nat.pow 10 (min (-scale) 5000).toNat⟩

/-- With so many digits behind the point. -/
def fixed (places : Nat) (x : Fraction) : String :=
  let digits := toString (round (x.top * Nat.pow 10 places) x.bottom)
  let padded := String.ofList (List.replicate (places + 1 - digits.length) '0') ++ digits
  let whole := (padded.dropEnd places).toString
  if places = 0 then whole else whole ++ "." ++ (padded.drop whole.length).toString

/-- The exponent of the first digit when the number has `places` more digits
behind it, and those digits. -/
def leading (places : Nat) (x : Fraction) : Int × String :=
  if x.top = 0 then (0, String.ofList (List.replicate (places + 1) '0'))
  else
    let digitsAt := fun exponent : Int =>
      let shift : Int := places - exponent
      if 0 ≤ shift then round (x.top * Nat.pow 10 shift.toNat) x.bottom
      else round x.top (x.bottom * Nat.pow 10 (-shift).toNat)
    let guess : Int := (toString x.top).length - (toString x.bottom).length
    -- The guess is too large by at most one, and rounding may add a digit.
    let exponent := if digitsAt guess < Nat.pow 10 places then guess - 1 else guess
    let digits := digitsAt exponent
    if Nat.pow 10 (places + 1) ≤ digits then (exponent + 1, toString (digits / 10))
    else (exponent, toString digits)

/-- An exponent of at least two digits. -/
def exponentText (exponent : Int) : String :=
  let digits := toString exponent.natAbs
  (if exponent < 0 then "e-" else "e+") ++ (if digits.length < 2 then "0" ++ digits else digits)

/-- With one digit before the point and an exponent. -/
def scientific (places : Nat) (x : Fraction) : String :=
  let (exponent, digits) := x.leading places
  let first := (digits.take 1).toString
  (if places = 0 then first else first ++ "." ++ (digits.drop 1).toString) ++ exponentText exponent

/-- Without zeros at the end of the digits behind the point. -/
def trim (text : String) : String :=
  if text.toList.contains '.' then
    let cs := (text.toList.reverse.dropWhile (· == '0'))
    String.ofList (if cs.head? = some '.' then cs.drop 1 else cs).reverse
  else text

/-- In the shorter of both forms, with so many digits. -/
def general (digits : Nat) (x : Fraction) : String :=
  let digits := max digits 1
  let (exponent, leading) := x.leading (digits - 1)
  if exponent < -4 || (digits : Int) ≤ exponent then
    let first := (leading.take 1).toString
    let rest := (leading.drop 1).toString
    trim (if rest.isEmpty then first else first ++ "." ++ rest) ++ exponentText exponent
  else trim (x.fixed ((digits : Int) - 1 - exponent).toNat)

end Fraction

/-! ## Directives -/

/-- How a directive of a format shows its argument. -/
structure Directive where
  flags : List Char := []
  width : Nat := 0
  /-- The most octets of a text that are shown, the fewest digits of a number. -/
  precision : Option Nat := none
  conversion : Char
deriving DecidableEq, Repr

namespace Directive

/-- Fills up to the width. -/
def fill (directive : Directive) (mayZero : Bool) (sign text : String) : String :=
  let missing := directive.width - (sign.length + text.length)
  let pad := fun c => String.ofList (List.replicate missing c)
  if directive.flags.contains '-' then sign ++ text ++ pad ' '
  else if mayZero && directive.flags.contains '0' then sign ++ pad '0' ++ text
  else pad ' ' ++ sign ++ text

/-- The sign in front of a number. -/
def signOf (directive : Directive) (negative : Bool) : String :=
  if negative then "-"
  else if directive.flags.contains '+' then "+"
  else if directive.flags.contains ' ' then " "
  else ""

/-- Shows a whole number. -/
def showInteger (directive : Directive) (n : Int) : String :=
  let isSigned := directive.conversion == 'd' || directive.conversion == 'i'
  let size := if isSigned then n.natAbs else Arithmetic.bits n
  let base := match directive.conversion with
    | 'o' => 8
    | 'x' | 'X' => 16
    | _ => 10
  let digits := String.ofList (Nat.toDigits base size)
  let digits := if directive.conversion = 'X' then digits.toUpper else digits
  let digits := match directive.precision with
    | some least => String.ofList (List.replicate (least - digits.length) '0') ++
        (if least = 0 && size = 0 then "" else digits)
    | none => digits
  let mark := if !directive.flags.contains '#' || size = 0 then ""
    else match directive.conversion with
      | 'o' => "0"
      | 'x' => "0x"
      | 'X' => "0X"
      | _ => ""
  directive.fill directive.precision.isNone
    ((if isSigned then directive.signOf (n < 0) else "") ++ mark) digits

/-- Shows a number with a fraction. -/
def showFraction (directive : Directive) (negative : Bool) (x : Fraction) : String :=
  let places := directive.precision.getD 6
  let text := match directive.conversion with
    | 'e' | 'E' => x.scientific places
    | 'g' | 'G' => x.general places
    | _ => x.fixed places
  let text := if directive.conversion.isUpper then text.toUpper else text
  directive.fill true (directive.signOf negative) text

/-- Shows a text. -/
def showText (directive : Directive) (text : String) : String :=
  directive.fill false "" (match directive.precision with
    | some most => (text.take most).toString
    | none => text)

end Directive

/-! ## Arguments as numbers -/

/-- What is wrong with an argument that should be a number. -/
inductive NumberFault where
  | notNumber
  | notAll
  | tooLarge
deriving DecidableEq, Repr

/-- The whole number that an argument begins with. -/
def integerOf (arg : String) : Int × Option NumberFault :=
  let cs := arg.toList.dropWhile fun c => c == ' ' || c == '\t'
  match cs with
  | '\'' :: c :: _ => (c.toNat, none)
  | '"' :: c :: _ => (c.toNat, none)
  | _ =>
    let (negative, digits) := match cs with
      | '-' :: cs => (true, cs)
      | '+' :: cs => (false, cs)
      | cs => (false, cs)
    match digits with
    | [] => (0, if arg.isEmpty then none else some .notNumber)
    | c :: _ =>
      if !c.isDigit then (0, some .notNumber)
      else
        let (n, rest) := Arithmetic.literal digits
        let n : Int := if negative then -(n : Int) else n
        let clamped := max (-(Int.pow 2 63)) (min (Int.pow 2 63 - 1) n)
        (clamped, if !rest.isEmpty then some .notAll else if clamped = n then none else some .tooLarge)

/-- The number that an argument begins with. -/
def fractionOf (arg : String) : Bool × Fraction × Option NumberFault :=
  let cs := arg.toList.dropWhile fun c => c == ' ' || c == '\t'
  match cs with
  | '\'' :: c :: _ => (false, ⟨c.toNat, 1⟩, none)
  | '"' :: c :: _ => (false, ⟨c.toNat, 1⟩, none)
  | _ =>
    let (negative, cs) := match cs with
      | '-' :: cs => (true, cs)
      | '+' :: cs => (false, cs)
      | cs => (false, cs)
    let whole := cs.takeWhile Char.isDigit
    let behind := cs.drop whole.length
    let part := match behind with
      | '.' :: behind => '.' :: behind.takeWhile Char.isDigit
      | _ => []
    let behind := behind.drop part.length
    let exponent := match behind with
      | e :: tail =>
        if e = 'e' || e = 'E' then
          let sign := (tail.take 1).filter Text.isSign
          let digits := (tail.drop sign.length).takeWhile Char.isDigit
          if digits.isEmpty then [] else e :: (sign ++ digits)
        else []
      | [] => []
    if whole.isEmpty && part.length ≤ 1 then
      (false, ⟨0, 1⟩, if arg.isEmpty then none else some .notNumber)
    else (negative, .ofLiteral (whole ++ part ++ exponent),
      if (behind.drop exponent.length).isEmpty then none else some .notAll)

/-! ## Formats -/

/-- A format in the course of being written. -/
structure Printing where
  out : String := ""
  err : String := ""
  status : Nat := 0
  args : List String := []
  /-- Nothing more is written. -/
  ended : Bool := false

namespace Printing

/-- Goes on with a text. -/
def put (printing : Printing) (text : String) : Printing :=
  { printing with out := printing.out ++ text }

/-- The next argument, `none` if there is none. -/
def take (printing : Printing) : Option String × Printing :=
  (printing.args.head?, { printing with args := printing.args.tail })

/-- Complains and goes on. -/
def complain (printing : Printing) (text : String) : Printing :=
  { printing with err := printing.err ++ text ++ "\n", status := 1 }

/-- Complains about an argument that should be a number. -/
def judge (inShell : Bool) (name arg : String) (fault : Option NumberFault) (printing : Printing) :
    Printing :=
  match fault with
  | none => printing
  | some fault =>
    let shown := if inShell then arg else s!"'{arg}'"
    let text := match fault with
      | .notNumber => if inShell then "expected numeric value" else "expected a numeric value"
      | .notAll => if inShell then "not completely converted" else "value not completely converted"
      | .tooLarge => "Numerical result out of range"
    printing.complain s!"{name}: {shown}: {text}"

end Printing

/-- A width or a precision: a number, or the next argument for a star. -/
def readSize (cs : List Char) (printing : Printing) : Option Int × List Char × Printing :=
  match cs with
  | '*' :: cs =>
    let (arg, printing) := printing.take
    (some (integerOf (arg.getD "0")).1, cs, printing)
  | cs =>
    let digits := cs.takeWhile Char.isDigit
    (if digits.isEmpty then none else some (Text.digitsValue digits), cs.drop digits.length, printing)

/-- Writes an argument as a directive asks for, behind the percent sign. -/
def writeDirective (inShell : Bool) (name : String) (cs : List Char) (printing : Printing) :
    Printing × List Char :=
  let isFlag := "-+ #0".toList.contains
  let flags := cs.takeWhile isFlag
  let (width, rest, printing) := readSize (cs.drop flags.length) printing
  let flags := if width.any (· < 0) then '-' :: flags else flags
  let (precision, rest, printing) : Option Nat × List Char × Printing := match rest with
    | '.' :: rest =>
      let (size, rest, printing) := readSize rest printing
      ((match size with
        | some size => if size < 0 then none else some size.toNat
        | none => some 0), rest, printing)
    | rest => (none, rest, printing)
  let rest := if inShell then rest else rest.dropWhile "hlLqjzt".toList.contains
  let stop := fun (text : String) (status : Nat) =>
    ({ printing with
      err := printing.err ++ name ++ ": " ++ text ++ "\n", status := status, ended := true }, [])
  match rest with
  | [] =>
    if inShell then stop "missing format character" 2
    else stop ("%" ++ String.ofList cs ++ ": invalid conversion specification") 1
  | conversion :: rest =>
    let directive : Directive := ⟨flags, (width.getD 0).natAbs, precision, conversion⟩
    let (arg?, after) := printing.take
    let arg := arg?.getD ""
    if "diouxX".toList.contains conversion then
      let (n, fault) := integerOf arg
      ((after.judge inShell name arg fault).put (directive.showInteger n), rest)
    else if "eEfFgG".toList.contains conversion then
      let (negative, x, fault) := fractionOf arg
      let x := x.roundToBits (if inShell then 53 else 64)
      ((after.judge inShell name arg fault).put (directive.showFraction negative x), rest)
    else match conversion with
      | 's' => (after.put (directive.showText arg), rest)
      | 'c' => (after.put (directive.showText (arg.take 1).toString), rest)
      | 'b' =>
        let (text, ended) :=
          { Escapes.inArgument with hexadecimal := !inShell }.replaceAll arg
        let after := after.put (directive.showText text)
        ({ after with ended := ended }, if ended then [] else rest)
      | 'q' =>
        if inShell then stop "%q: invalid directive" 2
        else (after.put (directive.showText (quoteForShell arg)), rest)
      | _ =>
        let shown := "%" ++ String.ofList (cs.take (cs.length - rest.length))
        if inShell then stop (shown ++ ": invalid directive") 2
        else stop (shown ++ ": invalid conversion specification") 1

/-- Goes through a format once. `rounds` bounds the number of its parts. -/
def writeFormat (inShell : Bool) (name : String) : (rounds : Nat) → List Char → Printing → Printing
  | 0, _, printing => printing
  | _, [], printing => printing
  | rounds + 1, '%' :: '%' :: cs, printing => writeFormat inShell name rounds cs (printing.put "%")
  | rounds + 1, '%' :: cs, printing =>
    let (printing, rest) := writeDirective inShell name cs printing
    if printing.ended then printing else writeFormat inShell name rounds rest printing
  | rounds + 1, '\\' :: cs, printing =>
    let escapes : Escapes :=
      { ending := !inShell, hexadecimal := !inShell, quotes := !inShell }
    match escapes.read cs with
    | (none, _) => { printing with ended := true }
    | (some octets, rest) =>
      writeFormat inShell name rounds rest (printing.put (String.ofList octets))
  | rounds + 1, c :: cs, printing =>
    writeFormat inShell name rounds cs (printing.put (String.singleton c))

/-- Goes through a format until the arguments are used up, or none is taken. -/
def writeRounds (inShell : Bool) (name : String) (format : List Char) :
    (rounds : Nat) → Printing → Printing
  | 0, printing => printing
  | rounds + 1, printing =>
    let after := writeFormat inShell name (format.length + 1) format printing
    if after.ended || after.args.isEmpty || after.args.length = printing.args.length then after
    else writeRounds inShell name format rounds after

/-- Writes a format with its arguments filled in. -/
def printf (inShell : Bool) (request : Request) : Result :=
  let args := match request.args with
    | "--" :: args => args
    | args => args
  match args with
  | [] =>
    if inShell then request.complain "usage: printf format [arg ...]" 2
    else request.misuse "missing operand"
  | format :: args =>
    if inShell && format.startsWith "-" && 1 < format.length then
      request.complain s!"Illegal option -{(format.drop 1).take 1}" 2
    else
      let printing := writeRounds inShell request.name format.toList (args.length + 1) { args := args }
      { out := printing.out, err := printing.err, status := printing.status }

end CommandCompletion.Script
