/-
Utilities that count and calculate.

Numbers with a fraction are whole numbers of a small unit, so that nothing is
rounded.
-/
import CommandCompletion.Script.Regex
import CommandCompletion.Script.Utility.Format
import CommandCompletion.Script.Utility.Lines

set_option autoImplicit false

namespace CommandCompletion.Script

/-! ## Counting -/

/-- A decimal: so many units, of which ten to the power of `places` make one. -/
structure Fixed where
  units : Int
  places : Nat := 0
deriving DecidableEq, Repr, Inhabited

namespace Fixed

/-- The units of a smaller size. -/
def unitsAt (places : Nat) (x : Fixed) : Int := x.units * Int.pow 10 (places - x.places)

/-- The decimal that a text writes. -/
def ofText? (text : String) : Option Fixed :=
  let cs := text.toList.dropWhile Pattern.isBlank
  let (negative, cs) := match cs with
    | '-' :: cs => (true, cs)
    | '+' :: cs => (false, cs)
    | cs => (false, cs)
  let sign : Int := if negative then -1 else 1
  match cs with
  | '0' :: 'x' :: c :: cs =>
    if (c :: cs).all fun c => (Text.hexDigit? c).isSome then
      some ⟨sign * (Arithmetic.digits 16 (c :: cs)).1, 0⟩
    else none
  | cs =>
    let whole := cs.takeWhile Char.isDigit
    let (fraction, rest) := match cs.drop whole.length with
      | '.' :: rest => (rest.takeWhile Char.isDigit, rest.dropWhile Char.isDigit)
      | rest => ([], rest)
    let units := sign * (Text.digitsValue (whole ++ fraction) : Int)
    if whole.isEmpty && fraction.isEmpty then none
    else
      match rest with
      | [] => some ⟨units, fraction.length⟩
      | e :: rest =>
        let (down, digits) := match rest with
          | '-' :: rest => (true, rest)
          | '+' :: rest => (false, rest)
          | rest => (false, rest)
        let power := Text.digitsValue digits
        if (e != 'e' && e != 'E') || digits.isEmpty || !digits.all Char.isDigit || 400 < power then none
        else if down then some ⟨units, fraction.length + power⟩
        else some ⟨units * Int.pow 10 (power - fraction.length), fraction.length - power⟩

/-- The decimal with so many places behind the point, filled up with zeros to a
width. -/
def write (places width : Nat) (units : Int) : String :=
  let digits := toString units.natAbs
  let digits := String.ofList (List.replicate (places + 1 - digits.length) '0') ++ digits
  let text := if places = 0 then digits
    else (digits.dropEnd places).toString ++ "." ++ (digits.drop (digits.length - places)).toString
  let sign := if units < 0 then "-" else ""
  sign ++ String.ofList (List.replicate (width - text.length - sign.length) '0') ++ text

end Fixed

/-- Most numbers that are counted. -/
def maxCount : Nat := 1000000

/-- Counts from a number to another, in steps. -/
def seq (request : Request) : Result :=
  let isNumber := fun (arg : String) =>
    match arg.toList with
    | '-' :: c :: _ => c.isDigit || c == '.'
    | '-' :: [] => true
    | c :: _ => c != '-'
    | [] => true
  -- A number below zero is no option.
  let optionCount := (request.args.takeWhile fun arg => !isNumber arg).length
  let rec split : List String → List String × List String
    | arg :: value :: rest =>
      if arg = "-s" || arg = "-f" then
        let (front, back) := split rest
        (arg :: value :: front, back)
      else if isNumber arg then ([], arg :: value :: rest)
      else
        let (front, back) := split (value :: rest)
        (arg :: front, back)
    | [arg] => if isNumber arg then ([], [arg]) else ([arg], [])
    | [] => ([], [])
  let (front, numbers) := if optionCount = 0 then ([], request.args) else split request.args
  let spelling : Spelling := {
    flags := "w", valued := "sf", long := [("equal-width", 'w'), ("separator", 's'), ("format", 'f')] }
  ({ request with args := front } : Request).withOptions spelling 1 fun options =>
    match numbers with
    | [] => request.misuse "missing operand"
    | _ :: _ :: _ :: extra :: _ => request.misuse s!"extra operand {quoteAlways extra}"
    | numbers =>
      match numbers.find? fun text => (Fixed.ofText? text).isNone with
      | some text =>
        if text = "inf" || text = "infinity" then { millis := forever }
        else request.misuse s!"invalid floating point argument: {quoteAlways text}"
      | none =>
        let (first, step, last) : Fixed × Fixed × Fixed := match numbers.filterMap Fixed.ofText? with
          | [last] => (⟨1, 0⟩, ⟨1, 0⟩, last)
          | [first, last] => (first, ⟨1, 0⟩, last)
          | first :: step :: last :: _ => (first, step, last)
          | [] => (⟨1, 0⟩, ⟨1, 0⟩, ⟨0, 0⟩)
        if step.units = 0 then
          request.misuse ("invalid Zero increment value: " ++ quoteAlways (numbers.getD 1 ""))
        else
          let places := max first.places step.places
          let scale := max places last.places
          let (a, d, z) := (first.unitsAt scale, step.unitsAt scale, last.unitsAt scale)
          let count := if 0 < d then (if z < a then 0 else (z - a) / d + 1)
            else (if a < z then 0 else (a - z) / (-d) + 1)
          let from' := first.unitsAt places
          let by' := step.unitsAt places
          let width := if options.has 'w' then
              max (Fixed.write places 0 from').length
                (Fixed.write places 0 (z / Int.pow 10 (scale - places))).length
            else 0
          let write := fun (n : Int) =>
            match options.value? 'f' with
            | some format =>
              (printf false { request with args := [format, Fixed.write places 0 n] }).out
            | none => Fixed.write places width n
          let separator := (options.value? 's').getD "\n"
          let texts := (List.range (min count.toNat maxCount)).map fun (i : Nat) => write (from' + by' * i)
          match options.value? 'f' with
          | some format =>
            if !format.toList.contains '%' then
              request.complain s!"format {quoteAlways format} has no % directive"
            else .ofText (if texts.isEmpty then "" else String.intercalate separator texts ++ "\n")
          | none =>
            { out := if texts.isEmpty then "" else String.intercalate separator texts ++ "\n"
              millis := if maxCount < count.toNat then forever else 0 }

/-! ## Calculating -/

namespace Calculation

/-- A calculation in the course of reading: the arguments that follow, and the
one passed last. -/
structure Source where
  rest : List String
  passed : String := ""

/-- Reads and evaluates a part of a calculation. -/
abbrev Eval (α : Type) := StateT Source (Except String) α

/-- The number that a text writes. -/
def integer? (text : String) : Option Int :=
  match text.toList with
  | '-' :: cs => if cs.isEmpty || !cs.all Char.isDigit then none else some (-(Text.digitsValue cs : Int))
  | cs => if cs.isEmpty || !cs.all Char.isDigit then none else some (Text.digitsValue cs)

/-- The number that an operand must be. -/
def integer (text : String) : Eval Int :=
  match integer? text with
  | some n => return n
  | none => throw "non-integer argument"

/-- Counts as nothing. -/
def isNull (text : String) : Bool := text.isEmpty || integer? text == some 0

/-- The next argument, left where it is. -/
def peek : Eval (Option String) := return (← get).rest.head?

/-- Takes the next argument. -/
def take : Eval String := do
  let source ← get
  match source.rest with
  | arg :: rest => set { source with rest := rest, passed := arg }; return arg
  | [] => throw s!"syntax error: missing argument after {quoteAlways source.passed}"

/-- Passes one of some signs, if it comes next. -/
def sign? (signs : List String) : Eval (Option String) := do
  match ← peek with
  | some sign => if signs.contains sign then return some (← take) else return none
  | none => return none

/-- What an expression matches at the beginning of a text: the first group, or the
number of characters. -/
def matched (text pattern : String) : Eval String := do
  match Regex.ofText false pattern with
  | .error trouble => throw trouble.message
  | .ok regex =>
    let cs := text.toList.toArray
    let grouped := (pattern.splitOn "\\(").length > 1
    match Regex.matchAt? false regex cs 0 with
    | none => return if grouped then "" else "0"
    | some found =>
      if grouped then
        match found.groups.lookup 1 with
        | some (first, last) => return String.ofList (cs.extract first last).toList
        | none => return ""
      else return toString found.last

/-- A comparison, of numbers if both sides are. -/
def compareBy (sign a b : String) : Bool :=
  let order := match integer? a, integer? b with
    | some m, some n => compare m n
    | _, _ => compare a b
  match sign with
  | "<" => order.isLT
  | "<=" => order.isLE
  | ">" => order.isGT
  | ">=" => order.isGE
  | "!=" => order.isNe
  | _ => order.isEq

/-- A step of arithmetic. -/
def arithmetic (live : Bool) (sign a b : String) : Eval String := do
  if !live then return a
  let m ← integer a
  let n ← integer b
  match sign with
  | "+" => return toString (m + n)
  | "-" => return toString (m - n)
  | "*" => return toString (m * n)
  | sign =>
    if n = 0 then throw "division by zero"
    return toString (if sign = "/" then m.tdiv n else m.tmod n)

mutual

/-- The first operand that counts. What makes no difference is not evaluated. -/
def either : (fuel : Nat) → (live : Bool) → Eval String
  | 0, _ => throw "syntax error"
  | fuel + 1, live => do eitherFrom fuel live (← both fuel live)

/-- Alternatives to what was read. -/
def eitherFrom : (fuel : Nat) → (live : Bool) → String → Eval String
  | 0, _, a => return a
  | fuel + 1, live, a => do
    match ← sign? ["|"] with
    | none => return a
    | some _ =>
      let b ← both fuel (live && isNull a)
      eitherFrom fuel live (if !isNull a then a else if isNull b then "0" else b)

/-- The first operand if both count, else zero. -/
def both : (fuel : Nat) → (live : Bool) → Eval String
  | 0, _ => throw "syntax error"
  | fuel + 1, live => do bothFrom fuel live (← binary fuel 0 live)

/-- Conditions besides what was read. -/
def bothFrom : (fuel : Nat) → (live : Bool) → String → Eval String
  | 0, _, a => return a
  | fuel + 1, live, a => do
    match ← sign? ["&"] with
    | none => return a
    | some _ =>
      let b ← binary fuel 0 (live && !isNull a)
      bothFrom fuel live (if isNull a || isNull b then "0" else a)

/-- Operations whose signs bind at least so strongly. -/
def binary : (fuel : Nat) → (strength : Nat) → (live : Bool) → Eval String
  | 0, _, _ => throw "syntax error"
  | fuel + 1, strength, live => do
    if 3 < strength then primary fuel live
    else binaryFrom fuel strength live (← binary fuel (strength + 1) live)

/-- Operations of one strength on what was read. -/
def binaryFrom : (fuel : Nat) → (strength : Nat) → (live : Bool) → String → Eval String
  | 0, _, _, a => return a
  | fuel + 1, strength, live, a => do
    let signs := match strength with
      | 0 => ["<", "<=", "=", "==", "!=", ">=", ">"]
      | 1 => ["+", "-"]
      | 2 => ["*", "/", "%"]
      | _ => [":"]
    match ← sign? signs with
    | none => return a
    | some sign =>
      let b ← binary fuel (strength + 1) live
      let value ← match strength with
        | 0 => pure (if compareBy sign a b then "1" else "0")
        | 3 => if live then matched a b else pure a
        | _ => arithmetic live sign a b
      binaryFrom fuel strength live value

/-- A value, or a function of values. -/
def primary : (fuel : Nat) → (live : Bool) → Eval String
  | 0, _ => throw "syntax error"
  | fuel + 1, live => do
    match ← take with
    | "+" => take
    | "length" => return toString (← primary fuel live).length
    | "match" =>
      let text ← primary fuel live
      let pattern ← primary fuel live
      if live then matched text pattern else return ""
    | "index" =>
      let text ← primary fuel live
      let set ← primary fuel live
      return toString ((text.toList.findIdx? set.toList.contains).elim 0 (· + 1))
    | "substr" =>
      let text ← primary fuel live
      let first ← primary fuel live
      let count ← primary fuel live
      match integer? first, integer? count with
      | some first, some count =>
        if first ≤ 0 || count ≤ 0 then return ""
        return ((text.drop (first.toNat - 1)).take count.toNat).toString
      | _, _ => return ""
    | "(" =>
      let value ← either fuel live
      match (← get).rest with
      | ")" :: _ => let _ ← take; return value
      | [] => throw s!"syntax error: expecting ')' after {quoteAlways (← get).passed}"
      | arg :: _ => throw s!"syntax error: expecting ')' instead of {quoteAlways arg}"
    | ")" => throw "syntax error: unexpected ')'"
    | value => return value

end

end Calculation

/-- Calculates what the arguments write. -/
def expr (request : Request) : Result :=
  let args := match request.args with
    | "--" :: args => args
    | args => args
  if args.isEmpty then request.misuse "missing operand" 2
  else
    match (Calculation.either (12 * args.length + 16) true).run { rest := args } with
    | .error text => request.complain text 2
    | .ok (value, source) =>
      match source.rest with
      | arg :: _ => request.complain s!"syntax error: unexpected argument {quoteAlways arg}" 2
      | [] => { out := value ++ "\n", status := if Calculation.isNull value then 1 else 0 }

/-! ## Time -/

/-- A time in milliseconds, from a number with a unit. -/
def millisOf? (text : String) : Option Nat :=
  if text = "inf" || text = "infinity" then some forever
  else
    let (number, unit) := match text.toList.getLast? with
      | some 's' => ((text.dropEnd 1).toString, 1)
      | some 'm' => ((text.dropEnd 1).toString, 60)
      | some 'h' => ((text.dropEnd 1).toString, 3600)
      | some 'd' => ((text.dropEnd 1).toString, 86400)
      | _ => (text, 1)
    match Fixed.ofText? number with
    | some x => if x.units < 0 then none else some ((x.units.toNat * 1000 * unit) / Nat.pow 10 x.places)
    | none => none

/-- Waits for all of the times. -/
def sleep (request : Request) : Result :=
  match request.args.find? fun arg => (millisOf? arg).isNone with
  | some arg =>
    match arg.toList with
    | '-' :: letter :: _ => request.unknownOption letter
    | _ => request.misuse s!"invalid time interval {quoteAlways arg}"
  | none =>
    if request.args.isEmpty then request.misuse "missing operand"
    else { millis := (request.args.filterMap millisOf?).foldl (· + ·) 0 }

/-- Writes a line again and again. -/
def yes (request : Request) : Result :=
  let line := (if request.args.isEmpty then "y" else String.intercalate " " request.args) ++ "\n"
  { out := String.join (List.replicate 65536 line), millis := forever }

end CommandCompletion.Script
