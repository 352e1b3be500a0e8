/-
Arithmetic of the shell.

Expressions are those of whole numbers of 64 bits, with the operators of C, and
may assign to the shell's parameters. An operand that makes no difference is read
but has no effect.
-/
import CommandCompletion.Script.Reading
import CommandCompletion.Text.Hexadecimal

set_option autoImplicit false

namespace CommandCompletion.Script.Arithmetic

/-! ## Numbers -/

/-- A number as a word of 64 bits holds it. -/
def wrap (n : Int) : Int := Int.bmod n (Nat.pow 2 64)

/-- The digits of a base in front of a text, as a number, and what follows. -/
def digits (base : Nat) (cs : List Char) : Nat × List Char :=
  let isDigit := fun c => (Text.hexDigit? c).any (· < base)
  ((cs.takeWhile isDigit).foldl (fun n c => n * base + (Text.hexDigit? c).getD 0) 0,
    cs.dropWhile isDigit)

/-- A number that begins with a digit: hexadecimal behind `0x`, octal behind `0`,
else decimal. -/
def literal : List Char → Nat × List Char
  | '0' :: x :: c :: cs =>
    if (x = 'x' || x = 'X') && (Text.hexDigit? c).isSome then digits 16 (c :: cs)
    else digits 8 ('0' :: x :: c :: cs)
  | '0' :: cs => digits 8 ('0' :: cs)
  | cs => digits 10 cs

/-- The value of a text that is all number, blanks around it allowed. -/
def number? (text : String) : Option Int :=
  let isBlank := fun c => c == ' ' || c == '\t' || c == '\n'
  let cs := text.toList.dropWhile isBlank
  let (negative, cs) := match cs with
    | '-' :: cs => (true, cs)
    | '+' :: cs => (false, cs)
    | cs => (false, cs)
  match cs with
  | c :: _ =>
    if c.isDigit then
      let (n, rest) := literal cs
      if (rest.dropWhile isBlank).isEmpty then
        -- What is too large stops at the largest number.
        some (max (-(Int.pow 2 63)) (min (Int.pow 2 63 - 1) (if negative then -(n : Int) else n)))
      else none
    else none
  | [] => none

/-! ## Evaluation -/

/-- Why an expression has no value. -/
inductive Trouble where
  /-- Something in the expression is wrong. -/
  | wrong (text : String)
  /-- A parameter has a value that is no number. -/
  | noNumber (value : String)
  /-- A parameter has no value. -/
  | unset (name : String)
  /-- A parameter must not be changed. -/
  | fixed (name : String)
deriving DecidableEq, Repr, Inhabited

/-- An expression in the course of evaluation: the rest of it, and the values
that were assigned, the last first. -/
structure State where
  rest : List Char
  assigned : List (String × Int) := []

/-- Evaluates a part of an expression. -/
abbrev Eval (α : Type) := StateT State (Except Trouble) α

/-- The operators, longer ones before those they begin with. -/
def signs : List String :=
  ["<<=", ">>=", "<<", ">>", "<=", ">=", "==", "!=", "&&", "||", "+=", "-=", "*=", "/=", "%=", "&=",
    "^=", "|=", "+", "-", "*", "/", "%", "<", ">", "=", "!", "~", "&", "|", "^", "?", ":", "(", ")"]

/-- The expression without blanks in front. -/
def skip (cs : List Char) : List Char :=
  cs.dropWhile fun c => c == ' ' || c == '\t' || c == '\n'

/-- The operator that stands next. -/
def peek : Eval (Option String) := do
  let cs := skip (← get).rest
  return signs.find? fun sign => sign.toList.isPrefixOf cs

/-- Passes over an operator. -/
def pass (sign : String) : Eval Unit :=
  modify fun state => { state with rest := (skip state.rest).drop sign.length }

/-- How tightly an operator of two operands binds, `none` for other operators. -/
def strength? : String → Option Nat
  | "*" | "/" | "%" => some 10
  | "+" | "-" => some 9
  | "<<" | ">>" => some 8
  | "<" | "<=" | ">" | ">=" => some 7
  | "==" | "!=" => some 6
  | "&" => some 5
  | "^" => some 4
  | "|" => some 3
  | _ => none

/-- A number as bits. -/
def bits (n : Int) : Nat := (n % Int.pow 2 64).toNat

/-- The number of a truth value. -/
def ofBool (b : Bool) : Int := if b then 1 else 0

/-- The value of an operator on two numbers. -/
def apply (sign : String) (a b : Int) : Except Trouble Int :=
  match sign with
  | "*" => .ok (wrap (a * b))
  | "/" => if b = 0 then .error (.wrong "division by zero") else .ok (wrap (Int.tdiv a b))
  | "%" => if b = 0 then .error (.wrong "division by zero") else .ok (wrap (Int.tmod a b))
  | "+" => .ok (wrap (a + b))
  | "-" => .ok (wrap (a - b))
  | "<<" => .ok (wrap (a * Int.pow 2 (bits b % 64)))
  | ">>" => .ok (Int.fdiv a (Int.pow 2 (bits b % 64)))
  | "<" => .ok (ofBool (a < b))
  | "<=" => .ok (ofBool (a ≤ b))
  | ">" => .ok (ofBool (a > b))
  | ">=" => .ok (ofBool (a ≥ b))
  | "==" => .ok (ofBool (a == b))
  | "!=" => .ok (ofBool (a != b))
  | "&" => .ok (wrap (bits a &&& bits b : Nat))
  | "^" => .ok (wrap (bits a ^^^ bits b : Nat))
  | _ => .ok (wrap (bits a ||| bits b : Nat))

/-- What the shell's parameters hold. -/
abbrev Lookup := String → Except Trouble Int

/-- The value of a parameter, as it was assigned last. -/
def valueOf (lookup : Lookup) (name : String) : Eval Int := do
  match (← get).assigned.lookup name with
  | some value => return value
  | none => lookup name

/-- The name that stands next, and what follows it. -/
def name? (cs : List Char) : Option (String × List Char) :=
  match skip cs with
  | c :: cs =>
    if isNameStart c then
      some (String.ofList (c :: cs.takeWhile isNameChar), cs.dropWhile isNameChar)
    else none
  | [] => none

/-- The operator that an assignment makes first, for the sign of one. -/
def assigner? (cs : List Char) : Option String :=
  let cs := skip cs
  match ["<<=", ">>=", "+=", "-=", "*=", "/=", "%=", "&=", "^=", "|="].find? fun sign =>
      sign.toList.isPrefixOf cs with
  | some sign => some (sign.dropEnd 1).toString
  | none => if ['='].isPrefixOf cs && !(['=', '='].isPrefixOf cs) then some "" else none

mutual

/-- An assignment, or a choice between two values. Without `live` nothing is
looked up or assigned. -/
def assignment (lookup : Lookup) : (fuel : Nat) → (live : Bool) → Eval Int
  | 0, _ => throw (.wrong "expecting primary")
  | fuel + 1, live => do
    match name? (← get).rest with
    | some (name, rest) =>
      match assigner? rest with
      | some sign =>
        set { (← get) with rest := (skip rest).drop (sign.length + 1) }
        let value ← assignment lookup fuel live
        if live then
          let value ← if sign = "" then pure value
            else do apply sign (← valueOf lookup name) value
          modify fun state => { state with assigned := (name, value) :: state.assigned }
          return value
        else return value
      | none => conditional lookup fuel live
    | none => conditional lookup fuel live

/-- A condition with two values to choose from. -/
def conditional (lookup : Lookup) : (fuel : Nat) → (live : Bool) → Eval Int
  | 0, _ => throw (.wrong "expecting primary")
  | fuel + 1, live => do
    let condition ← either lookup fuel live
    if (← peek) = some "?" then
      pass "?"
      let a ← assignment lookup fuel (live && condition != 0)
      unless (← peek) = some ":" do throw (.wrong "expecting ':'")
      pass ":"
      let b ← conditional lookup fuel (live && condition == 0)
      return if condition != 0 then a else b
    else return condition

/-- Alternatives. -/
def either (lookup : Lookup) : (fuel : Nat) → (live : Bool) → Eval Int
  | 0, _ => throw (.wrong "expecting primary")
  | fuel + 1, live => do
    let a ← both lookup fuel live
    if (← peek) = some "||" then
      pass "||"
      let b ← either lookup fuel (live && a == 0)
      return ofBool (a != 0 || b != 0)
    else return a

/-- Conjunctions. -/
def both (lookup : Lookup) : (fuel : Nat) → (live : Bool) → Eval Int
  | 0, _ => throw (.wrong "expecting primary")
  | fuel + 1, live => do
    let a ← binary lookup fuel 3 live
    if (← peek) = some "&&" then
      pass "&&"
      let b ← both lookup fuel (live && a != 0)
      return ofBool (a != 0 && b != 0)
    else return a

/-- Operators of two operands that bind at least as tightly as `strength`. -/
def binary (lookup : Lookup) : (fuel : Nat) → (strength : Nat) → (live : Bool) → Eval Int
  | 0, _, _ => throw (.wrong "expecting primary")
  | fuel + 1, strength, live => do binaryFrom lookup fuel strength live (← primary lookup fuel live)

/-- The operators that follow the operand `a`. -/
def binaryFrom (lookup : Lookup) : (fuel : Nat) → (strength : Nat) → (live : Bool) → (a : Int) →
    Eval Int
  | 0, _, _, _ => throw (.wrong "expecting primary")
  | fuel + 1, strength, live, a => do
    match ← peek with
    | some sign =>
      match (strength? sign).filter (strength ≤ ·) with
      | some own =>
        pass sign
        let b ← binary lookup fuel (own + 1) live
        let value ← if live then apply sign a b else pure 0
        binaryFrom lookup fuel strength live value
      | none => return a
    | none => return a

/-- A number, a parameter, brackets, or a sign in front of one of these. -/
def primary (lookup : Lookup) : (fuel : Nat) → (live : Bool) → Eval Int
  | 0, _ => throw (.wrong "expecting primary")
  | fuel + 1, live => do
    match name? (← get).rest with
    | some (name, rest) =>
      set { (← get) with rest := rest }
      if live then valueOf lookup name else return 0
    | none =>
      match skip (← get).rest with
      | c :: cs =>
        if c.isDigit then
          let (n, rest) := literal (c :: cs)
          set { (← get) with rest := rest }
          return min (Int.pow 2 63 - 1) n
        else
          set { (← get) with rest := cs }
          match c with
          | '(' =>
            let value ← assignment lookup fuel live
            unless (← peek) = some ")" do throw (.wrong "expecting ')'")
            pass ")"
            return value
          | '+' => primary lookup fuel live
          | '-' => return wrap (-(← primary lookup fuel live))
          | '!' => return ofBool ((← primary lookup fuel live) == 0)
          | '~' => return -(← primary lookup fuel live) - 1
          | _ => throw (.wrong "expecting primary")
      | [] => throw (.wrong "expecting primary")

end

/-- The value of an expression, and what it assigned, in order. -/
def evaluate (lookup : Lookup) (text : String) : Except Trouble (Int × List (String × Int)) := do
  let (value, state) ← (assignment lookup (8 * text.length + 64) true).run { rest := text.toList }
  unless (skip state.rest).isEmpty do throw (.wrong "expecting EOF")
  return (value, state.assigned.reverse)

end CommandCompletion.Script.Arithmetic
