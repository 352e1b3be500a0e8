/-
Finding files.

A condition is put to every entry below the starting points. Conditions have
effects: they write the path, remove the entry, or run a command, all of which is
left to the caller.
-/
import CommandCompletion.Script.Pattern
import CommandCompletion.Script.Utility.Listing

set_option autoImplicit false

namespace CommandCompletion.Script

/-- What is asked of an entry. -/
inductive Condition where
  | always (holds : Bool)
  /-- A pattern matches the name, or the path, in any case if `fold` says so. -/
  | name (pattern : String) (fold : Bool)
  | path (pattern : String) (fold : Bool)
  | kind (letters : String)
  | empty
  /-- So many units of so many octets, or more, or less. -/
  | size (order : Ordering) (count unit : Nat)
  | print (stop : String)
  | printFormat (format : String)
  | delete
  /-- Runs a command; `all` runs it once on all paths. -/
  | run (words : List String) (all : Bool)
  /-- Does not go into the directory. -/
  | prune
  | quit
  | not (condition : Condition)
  | both (first second : Condition)
  | either (first second : Condition)
  | last (first second : Condition)

instance : Inhabited Condition := ⟨.always true⟩

namespace Condition

/-- Does more than ask. -/
def acts : Condition → Bool
  | print _ | printFormat _ | delete | run _ _ => true
  | not condition => acts condition
  | both first second | either first second | last first second => acts first || acts second
  | _ => false

/-- Removes entries, so that directories come behind what they hold. -/
def deletes : Condition → Bool
  | delete => true
  | not condition => deletes condition
  | both first second | either first second | last first second => deletes first || deletes second
  | _ => false

/-! ## Reading -/

/-- Reads a part of a condition from the arguments. -/
abbrev Parse (α : Type) := StateT (List String) (Except String) α

/-- The value that follows an argument. -/
def valueOf (name : String) : Parse String := do
  match ← get with
  | value :: rest => set rest; return value
  | [] => throw s!"missing argument to `{name}'"

/-- A number with a sign for more or less. -/
def orderOf (text : String) : Ordering × String :=
  if text.startsWith "+" then (.gt, (text.drop 1).toString)
  else if text.startsWith "-" then (.lt, (text.drop 1).toString)
  else (.eq, text)

/-- A size with its unit. -/
def sizeOf? (text : String) : Option Condition :=
  let (order, text) := orderOf text
  let digits := (text.toList.takeWhile Char.isDigit)
  let unit := match text.toList.drop digits.length with
    | [] | ['b'] => some 512
    | ['c'] => some 1
    | ['w'] => some 2
    | ['k'] => some 1024
    | ['M'] => some (Nat.pow 1024 2)
    | ['G'] => some (Nat.pow 1024 3)
    | _ => none
  if digits.isEmpty then none else unit.map fun unit => .size order (Text.digitsValue digits) unit

/-- A condition that is named by an argument. -/
def ofName (name : String) : Parse Condition := do
  match name with
  | "-true" => return .always true
  | "-false" => return .always false
  | "-name" => return .name (← valueOf name) false
  | "-iname" => return .name (← valueOf name) true
  | "-path" | "-wholename" => return .path (← valueOf name) false
  | "-ipath" => return .path (← valueOf name) true
  | "-empty" => return .empty
  | "-print" => return .print "\n"
  | "-print0" => return .print "\x00"
  | "-printf" => return .printFormat (← valueOf name)
  | "-delete" => return .delete
  | "-prune" => return .prune
  | "-quit" => return .quit
  | "-depth" | "-mount" | "-xdev" | "-follow" | "-noleaf" => return .always true
  | "-maxdepth" | "-mindepth" => let _ ← valueOf name; return .always true
  | "-type" =>
    let letters ← valueOf name
    match letters.toList.find? fun c => !"bcdpflsD,".toList.contains c with
    | some c => throw s!"Unknown argument to -type: {c}"
    | none => return .kind letters
  | "-size" =>
    let text ← valueOf name
    match sizeOf? text with
    | some condition => return condition
    | none => throw s!"Invalid argument `{text}' to -size"
  | "-exec" =>
    let args ← get
    let words := args.takeWhile fun arg => arg != ";" && arg != "+"
    match args.drop words.length with
    | stop :: rest => set rest; return .run words (stop == "+")
    | [] => throw "missing argument to `-exec'"
  | name =>
    if name.startsWith "-" then throw s!"unknown predicate `{name}'"
    else throw s!"paths must precede expression: `{name}'"

mutual

/-- Conditions of which the last counts. -/
def readLast : (fuel : Nat) → Parse Condition
  | 0 => throw "invalid expression"
  | fuel + 1 => do
    let first ← readEither fuel
    match ← get with
    | "," :: rest => set rest; return .last first (← readLast fuel)
    | _ => return first

/-- Conditions of which one must hold. -/
def readEither : (fuel : Nat) → Parse Condition
  | 0 => throw "invalid expression"
  | fuel + 1 => do
    let first ← readBoth fuel
    match ← get with
    | "-o" :: rest | "-or" :: rest => set rest; return .either first (← readEither fuel)
    | _ => return first

/-- Conditions all of which must hold. -/
def readBoth : (fuel : Nat) → Parse Condition
  | 0 => throw "invalid expression"
  | fuel + 1 => do
    let first ← readOne fuel
    match ← get with
    | "-a" :: rest | "-and" :: rest => set rest; return .both first (← readBoth fuel)
    | [] | "," :: _ | "-o" :: _ | "-or" :: _ | ")" :: _ => return first
    | _ => return .both first (← readBoth fuel)

/-- One condition. -/
def readOne : (fuel : Nat) → Parse Condition
  | 0 => throw "invalid expression"
  | fuel + 1 => do
    match ← get with
    | "!" :: rest | "-not" :: rest => set rest; return .not (← readOne fuel)
    | "(" :: rest =>
      set rest
      let inside ← readLast fuel
      match ← get with
      | ")" :: rest => set rest; return inside
      | _ => throw "invalid expression; I was expecting to find a ')' somewhere but did not see one."
    | arg :: rest => set rest; ofName arg
    | [] => throw "invalid expression"

end

/-- The condition that arguments write; without any effect it writes the path. -/
def ofArgs (args : List String) : Except String Condition := do
  if args.isEmpty then return .print "\n"
  let (condition, rest) ← (readLast (5 * args.length + 8)).run args
  match rest with
  | ")" :: _ => throw "you have too many ')'"
  | arg :: _ => throw s!"paths must precede expression: `{arg}'"
  | [] => return if condition.acts then condition else .both condition (.print "\n")

end Condition

/-! ## Asking -/

/-- An entry that is asked about. -/
structure Visit where
  path : String
  /-- The starting point that it lies below. -/
  start : String
  depth : Nat
  entry : Entry

/-- What is done for the conditions. -/
structure Hands (m : Type → Type) where
  put : String → m Unit
  complain : String → m Unit
  /-- Runs a command and says whether it succeeded. -/
  run : List String → m Bool
  remove : String → m Unit

/-- What is remembered between entries. -/
structure Condition.Memory where
  pruned : Bool := false
  ended : Bool := false
  /-- Commands that wait for all of their paths. -/
  waiting : List (List String × List String) := []

/-- A pattern matches a text. -/
def fits (pattern : String) (fold : Bool) (text : String) : Bool :=
  let lower := fun text : String => if fold then text.map Char.toLower else text
  Pattern.matchesText ((Pattern.unescape (lower pattern).toList)) (lower text)

/-- A path written in a format. -/
def Visit.write (visit : Visit) : List Char → String
  | '%' :: c :: cs =>
    let text := match c with
      | 'p' => visit.path
      | 'f' => lastName visit.path
      | 'h' => aboveName visit.path
      | 'H' => visit.start
      | 'P' => ((visit.path.drop visit.start.length).toString.dropWhile (· == '/')).toString
      | 'd' => toString visit.depth
      | 's' => toString (sizeOfEntry visit.entry)
      | 'y' => if visit.entry.isFolder then "d" else "f"
      | '%' => "%"
      | c => "%" ++ String.singleton c
    text ++ Visit.write visit cs
  | '\\' :: 'n' :: cs => "\n" ++ Visit.write visit cs
  | '\\' :: 't' :: cs => "\t" ++ Visit.write visit cs
  | '\\' :: '0' :: cs => "\x00" ++ Visit.write visit cs
  | '\\' :: '\\' :: cs => "\\" ++ Visit.write visit cs
  | c :: cs => String.singleton c ++ Visit.write visit cs
  | [] => ""

variable {m : Type → Type} [Monad m]

/-- Asks about an entry, with all effects. -/
def Condition.ask (hands : Hands m) (visit : Visit) : Condition → StateT Condition.Memory m Bool
  | always holds => return holds
  | name pattern fold => return fits pattern fold (lastName visit.path)
  | path pattern fold => return fits pattern fold visit.path
  | kind letters => return letters.toList.contains (if visit.entry.isFolder then 'd' else 'f')
  | empty => return match visit.entry with
    | .file bytes => bytes.isEmpty
    | .folder entries => entries.isEmpty
  | size order count unit =>
    return compare ((sizeOfEntry visit.entry + unit - 1) / unit) count == order
  | print stop => do
    hands.put (visit.path ++ stop)
    return true
  | printFormat format => do
    hands.put (visit.write format.toList)
    return true
  | delete => do
    hands.remove visit.path
    return true
  | run words false => hands.run (words.map fun word => word.replace "\x7b\x7d" visit.path)
  | run words true => do
    modify fun memory =>
      let others := memory.waiting.filter fun entry => entry.1 != words
      { memory with
        waiting := others ++ [(words, ((memory.waiting.lookup words).getD []) ++ [visit.path])] }
    return true
  | prune => do
    modify fun memory => { memory with pruned := true }
    return true
  | quit => do
    modify fun memory => { memory with ended := true }
    return true
  | not condition => return !(← condition.ask hands visit)
  | both first second => do
    if ← first.ask hands visit then second.ask hands visit else return false
  | either first second => do
    if ← first.ask hands visit then return true else second.ask hands visit
  | last first second => do
    let _ ← first.ask hands visit
    second.ask hands visit

/-- Asks about an entry and those below it, between two depths. -/
def searchBelow (hands : Hands m) (condition : Condition) (least most : Nat) (foldersLast : Bool)
    (start : String) (depth : Nat) (path : String) (entry : Entry) : StateT Condition.Memory m Unit := do
  let here : StateT Condition.Memory m Unit := do
    if least ≤ depth && !(← get).ended then
      let _ ← condition.ask hands ⟨path, start, depth, entry⟩
  unless foldersLast do here
  let memory ← get
  set { memory with pruned := false }
  match entry with
  | .file _ => pure ()
  | .folder entries =>
    if depth < most && (!memory.pruned || foldersLast) then
      for ⟨(name, entry), member⟩ in entries.attach do
        let path := (if path.endsWith "/" then path else path ++ "/") ++ encode name
        unless (← get).ended do
          searchBelow hands condition least most foldersLast start (depth + 1) path entry
  if foldersLast then here
termination_by sizeOf entry
decreasing_by
  have := List.sizeOf_lt_of_mem member
  simp only [Prod.mk.sizeOf_spec, Entry.folder.sizeOf_spec] at this ⊢
  omega

/-- The number that follows an argument. -/
def numberBehind? (name : String) : List String → Option Nat
  | arg :: value :: rest => if arg = name then natOf? value else numberBehind? name (value :: rest)
  | _ => none

/-- Finds files; the answer is the status. -/
def find (hands : Hands m) (request : Request) : m Nat := do
  let args := request.args.dropWhile fun arg => ["-L", "-P", "-H"].contains arg
  let isStart := fun (arg : String) =>
    !((arg.startsWith "-" && arg != "-") || ["(", "!", ")", ","].contains arg)
  let starts := args.takeWhile isStart
  let rest := args.drop starts.length
  match Condition.ofArgs rest with
  | .error text =>
    hands.complain s!"{request.name}: {text}\n"
    return 1
  | .ok condition =>
    let go : StateT Condition.Memory m Nat := do
      let mut status := 0
      for start in (if starts.isEmpty then ["."] else starts) do
        match request.find start with
        | .ok entry =>
          searchBelow hands condition ((numberBehind? "-mindepth" rest).getD 0)
            ((numberBehind? "-maxdepth" rest).getD forever)
            (rest.contains "-depth" || condition.deletes) start 0 start entry
        | .error cause =>
          hands.complain s!"{request.name}: {quoteAlways start}: {causeText cause}\n"
          status := 1
      for (words, paths) in (← get).waiting do
        let words := words.filter (· != "\x7b\x7d")
        unless ← hands.run (words ++ paths) do status := 1
      return status
    let (status, _) ← go.run {}
    return status

end CommandCompletion.Script
