/-
Conditions on texts, numbers and files.

A condition is read from the arguments from left to right. An argument that has a
meaning of its own is an operand all the same where only an operand can stand.
-/
import CommandCompletion.Script.Arithmetic
import CommandCompletion.Script.Utility.Basic
import CommandCompletion.Text.Decimal

set_option autoImplicit false

namespace CommandCompletion.Script

namespace Test

/-- The signs with one operand. -/
def unarySigns : List String :=
  ["-r", "-w", "-x", "-e", "-f", "-d", "-c", "-b", "-p", "-u", "-g", "-k", "-s", "-t", "-z", "-n",
    "-h", "-L", "-O", "-G", "-S"]

/-- The signs with two operands. -/
def binarySigns : List String :=
  ["=", "!=", "<", ">", "-eq", "-ne", "-ge", "-gt", "-le", "-lt", "-nt", "-ot", "-ef"]

/-- What an argument is. -/
inductive Token where
  | unary (sign : String)
  | binary (sign : String)
  | negation
  | conjunction
  | disjunction
  | opening
  | closing
  | operand
  | stop
deriving DecidableEq, Repr

/-- The meaning of an argument by itself. -/
def meaning (arg : String) : Token :=
  if unarySigns.contains arg then .unary arg
  else if binarySigns.contains arg then .binary arg
  else
    match arg with
    | "!" => .negation
    | "-a" => .conjunction
    | "-o" => .disjunction
    | "(" => .opening
    | ")" => .closing
    | _ => .operand

/-- Compares two operands. -/
def isBinary (arg : String) : Bool := binarySigns.contains arg

/-- A condition in the course of reading: all arguments, and the place of the
present one. -/
structure Source where
  args : List String
  place : Nat := 0

/-- Reads and decides a part of a condition. -/
abbrev Eval (α : Type) := StateT Source (Except String) α

/-- An argument, counted from the present one. -/
def argAt (distance : Nat) : Eval (Option String) := do
  let source ← get
  return source.args[source.place + distance]?

/-- Goes on to a later argument. -/
def goOn (distance : Nat) : Eval Unit :=
  modify fun source => { source with place := source.place + distance }

/-- What an argument is where it stands. -/
def tokenAt (distance : Nat) : Eval Token := do
  match ← argAt distance with
  | none => return .stop
  | some arg =>
    let next ← argAt (distance + 1)
    let behind ← argAt (distance + 2)
    match meaning arg with
    | .unary sign =>
      -- A sign that nothing follows, or that is compared, is an operand.
      let isOperand := match next, behind with
        | none, _ => true
        | some _, none => false
        | some next, some _ => isBinary next
      return if isOperand then .operand else .unary sign
    | .opening => return if next.isNone then .operand else .opening
    | token => return token

/-- The number that an operand must be. -/
def number (arg : String) : Eval Int := do
  let cs := arg.toList
  let text := String.ofList (cs.dropWhile fun c => c == ' ' || c == '\t' || c == '\n')
  let digits := match text.toList with
    | '-' :: cs => cs
    | '+' :: cs => cs
    | cs => cs
  let body := (digits.reverse.dropWhile fun c => c == ' ' || c == '\t' || c == '\n').reverse
  if body.isEmpty || !body.all Char.isDigit then throw s!"Illegal number: {arg}"
  let n : Int := Text.digitsValue body
  return if text.startsWith "-" then -n else n

/-- Whether something holds of what a path names. -/
def fileHolds (files : Files) (sign path : String) : Bool :=
  if path = "/dev/null" then ["-e", "-c", "-r", "-w", "-O", "-G"].contains sign
  else
    match files.find (decode path) with
    | .error _ => false
    | .ok entry =>
      match sign with
      | "-e" | "-r" | "-w" | "-O" | "-G" => true
      | "-d" | "-x" => entry.isFolder
      | "-f" => !entry.isFolder
      | "-s" => match entry with
        | .file bytes => !bytes.isEmpty
        | .folder _ => true
      | _ => false

/-- Decides a sign with one operand. -/
def unary (files : Files) (sign arg : String) : Eval Bool := do
  match sign with
  | "-z" => return arg.isEmpty
  | "-n" => return !arg.isEmpty
  | "-t" => let _ ← number arg; return false
  | sign => return fileHolds files sign arg

/-- Decides a sign with two operands. -/
def binary (files : Files) (sign a b : String) : Eval Bool := do
  match sign with
  | "=" => return a == b
  | "!=" => return a != b
  | "<" => return decide (a < b)
  | ">" => return decide (b < a)
  | "-ef" => return files.contains (decode a) && files.names (decode a) == files.names (decode b)
  | "-nt" => return files.contains (decode a) && !files.contains (decode b)
  | "-ot" => return !files.contains (decode a) && files.contains (decode b)
  | sign =>
    let m ← number a
    let n ← number b
    match sign with
    | "-eq" => return m == n
    | "-ne" => return m != n
    | "-lt" => return m < n
    | "-le" => return m ≤ n
    | "-gt" => return m > n
    | _ => return m ≥ n

mutual

/-- Conditions of which one must hold. -/
def disjunction (files : Files) : (fuel : Nat) → Token → Eval Bool
  | 0, _ => throw "too deep"
  | fuel + 1, token => do
    let first ← conjunction files fuel token
    match ← tokenAt 1 with
    | .disjunction =>
      goOn 2
      let rest ← disjunction files fuel (← tokenAt 0)
      return first || rest
    | _ => return first

/-- Conditions all of which must hold. -/
def conjunction (files : Files) : (fuel : Nat) → Token → Eval Bool
  | 0, _ => throw "too deep"
  | fuel + 1, token => do
    let first ← negation files fuel token
    match ← tokenAt 1 with
    | .conjunction =>
      goOn 2
      let rest ← conjunction files fuel (← tokenAt 0)
      return first && rest
    | _ => return first

/-- A condition with signs that negate it in front. -/
def negation (files : Files) : (fuel : Nat) → Token → Eval Bool
  | 0, _ => throw "too deep"
  | fuel + 1, token => do
    match token with
    | .negation =>
      let next ← tokenAt 1
      if next != .stop then goOn 1
      return !(← negation files fuel next)
    | token => primary files fuel token

/-- A condition by itself. -/
def primary (files : Files) : (fuel : Nat) → Token → Eval Bool
  | 0, _ => throw "too deep"
  | fuel + 1, token => do
    match token with
    | .stop => return false
    | .opening =>
      goOn 1
      match ← tokenAt 0 with
      | .closing => return false
      | token =>
        let holds ← disjunction files fuel token
        goOn 1
        unless (← tokenAt 0) == .closing do throw "closing paren expected"
        return holds
    | .unary sign =>
      goOn 1
      match ← argAt 0 with
      | none => throw s!"{sign}: argument expected"
      | some arg => unary files sign arg
    | _ =>
      let operand := (← argAt 0).getD ""
      match ← tokenAt 1 with
      | .binary sign =>
        goOn 2
        match ← argAt 0 with
        | none => throw s!"{sign}: argument expected"
        | some arg => binary files sign operand arg
      | _ => return !operand.isEmpty

end

/-- Decides a condition. -/
def decide? (files : Files) : (rounds : Nat) → List String → Except String Bool
  | 0, _ => .error "too deep"
  | rounds + 1, args => do
    let whole (token : Option Token) (args : List String) : Except String Bool := do
      let start : Eval Bool := do disjunction files (5 * args.length + 8) (token.getD (← tokenAt 0))
      let (holds, source) ← start.run { args := args }
      match source.args[source.place]?, source.args[source.place + 1]? with
      | some arg, some _ =>
        throw (if arg.isEmpty then "unexpected operator" else s!"{arg}: unexpected operator")
      | _, _ => return holds
    match args with
    | [] => return false
    | [_, sign, _] =>
      if isBinary sign then whole (some .operand) args
      else decideFew whole rounds args
    | [_, _, _, _] => decideFew whole rounds args
    | args => whole none args
where
  /-- Three or four arguments: brackets around them and a sign in front that
  negates them come first. -/
  decideFew (whole : Option Token → List String → Except String Bool) (rounds : Nat)
      (args : List String) : Except String Bool :=
    if args.head? == some "(" && args.getLast? == some ")" then whole none (args.tail.dropLast)
    else if args.head? == some "!" then (decide? files rounds args.tail).map fun holds => !holds
    else whole none args

end Test

/-- Says by its status whether a condition holds. -/
def test (request : Request) : Result :=
  let decide := fun (args : List String) =>
    match Test.decide? request.files 8 args with
    | .ok true => ({} : Result)
    | .ok false => { status := 1 }
    | .error text => request.complain text 2
  if request.name = "[" then
    if request.args.getLast? = some "]" then decide request.args.dropLast
    else request.complain "missing ]" 2
  else decide request.args

end CommandCompletion.Script
