/-
What a utility is given, and what it leaves behind.

A utility gets its arguments, what it can read, and the files; it answers with
what it writes, a status, and the files as it leaves them. All texts are octets.
-/
import CommandCompletion.Files.Change
import CommandCompletion.Script.Octets

set_option autoImplicit false

namespace CommandCompletion.Script

/-- What can be read. -/
structure Input where
  rest : String := ""
  /-- More follows than anyone can read. -/
  endless : Bool := false
  /-- It is a file, whose size is known. -/
  isFile : Bool := false
deriving DecidableEq, Repr, Inhabited

/-- What a utility is given. -/
structure Request where
  files : Files
  input : Input := {}
  environment : List (String × String) := []
  /-- The name that it goes by. -/
  name : String
  args : List String
  /-- Lines end with a zero octet: the two trade places in all that is read. -/
  zeroEnded : Bool := false
deriving Inhabited

/-- What a utility leaves behind. -/
structure Result where
  out : String := ""
  err : String := ""
  status : Nat := 0
  /-- How long it takes, in milliseconds. -/
  millis : Nat := 0
  /-- What is left of the input, `none` if nobody looked at it. -/
  unread : Option String := none
  /-- The files, where they were changed. -/
  root : Option Entry := none
deriving Inhabited

/-- Longer than any command is given. -/
def forever : Nat := Nat.pow 2 64

namespace Result

/-- Writes a text. -/
def ofText (text : String) : Result := { out := text }

/-- Complains in a line. -/
def complaint (line : String) (status : Nat) : Result := { err := line ++ "\n", status := status }

/-- One after the other; the status is the last that is not zero. -/
def append (first second : Result) : Result where
  out := first.out ++ second.out
  err := first.err ++ second.err
  status := if second.status = 0 then first.status else second.status
  millis := first.millis + second.millis
  unread := second.unread <|> first.unread
  root := second.root <|> first.root

instance : Append Result := ⟨append⟩

end Result

/-! ## Quoting -/

/-- Stands for itself in a script wherever it stands. -/
def isPlain (c : Char) : Bool := c.isAlphanum || "%+,-./:@]_\x7b\x7d".toList.contains c

/-- Can be shown. -/
def isPrintable (c : Char) : Bool := 32 ≤ c.toNat && c.toNat < 127

/-- An octet that cannot be shown, as an escape. -/
def escapeOf (c : Char) : String :=
  match (List.zip [7, 8, 9, 10, 11, 12, 13] ["a", "b", "t", "n", "v", "f", "r"]).lookup c.toNat with
  | some letter => "\\" ++ letter
  | none => "\\" ++ String.ofList ((Nat.toDigits 8 (c.toNat + 512)).drop 1)

/-- A text in quotes of the shell. -/
def quoteAlways (text : String) : String :=
  let cs := text.toList
  if cs.contains '\'' && cs.all fun c => isPlain c || " '#~".toList.contains c then s!"\"{text}\""
  else
    let step := fun (state : String × Bool) (c : Char) =>
      let (done, escaping) := state
      if isPrintable c then
        let done := if escaping then done ++ "''" else done
        (done ++ (if c = '\'' then "'\\''" else String.singleton c), false)
      else ((if escaping then done else done ++ "'$'") ++ escapeOf c, true)
    (cs.foldl step ("'", false)).1 ++ "'"

/-- A text in quotes of the shell, where it needs some. -/
def quoteForShell (text : String) : String :=
  let needs := match text.toList with
    | [] | ['\x7b'] | ['\x7d'] => true
    | c :: cs => !isPlain c || cs.any fun c => !isPlain c && c != '#' && c != '~'
  if needs then quoteAlways text else text

/-- What is said of a path that cannot be used; the number of the error is left
out. -/
def causeText (cause : FileCause) : String :=
  match cause.message.splitOn " (os error" with
  | text :: _ => text
  | [] => cause.message

namespace Request

/-- A complaint that begins with the name of the utility. -/
def complain (request : Request) (text : String) (status : Nat := 1) : Result :=
  .complaint (request.name ++ ": " ++ text) status

/-- A complaint about the use of the utility, with a hint where to read more. -/
def misuse (request : Request) (text : String) (status : Nat := 1) : Result :=
  .complaint (s!"{request.name}: {text}\nTry '{request.name} --help' for more information.") status

/-- The complaint about a letter that is no option. -/
def unknownOption (request : Request) (letter : Char) (status : Nat := 1) : Result :=
  request.misuse s!"invalid option -- '{letter}'" status

/-- What a path names. -/
def find (request : Request) (path : String) : Except FileCause Entry :=
  request.files.find (decode path)

/-- The text with line ends and zero octets in each other's place. -/
def swapEnds (text : String) : String :=
  text.map fun c => if c = '\n' then '\x00' else if c = '\x00' then '\n' else c

/-- The contents of a file, or all of the input for a single dash. -/
def read (request : Request) (path : String) : Except FileCause String :=
  let seen := fun (text : String) => if request.zeroEnded then swapEnds text else text
  if path = "-" then .ok (seen request.input.rest)
  else
    match request.find path with
    | .ok (.file bytes) => .ok (seen (octetsOf bytes))
    | .ok (.folder _) => .error .isDirectory
    | .error cause => .error cause

/-- The contents of the files, with complaints about those that cannot be read, in
the words of `wording`; the input if no files are named. Only what was read is in
the list. -/
def readAll (request : Request) (wording : String → String → String) (paths : List String) :
    List (String × String) × Result :=
  let paths := if paths.isEmpty then ["-"] else paths
  let step (state : List (String × String) × Result) (path : String) :
      List (String × String) × Result :=
    match request.read path with
    | .ok text => (state.1 ++ [(path, text)], state.2)
    | .error cause => (state.1, state.2 ++ request.complain (wording path (causeText cause)))
  paths.foldl step ([], { unread := if paths.contains "-" then some "" else none })

/-- The usual words about a file that cannot be read. -/
def plainly (path cause : String) : String := quoteForShell path ++ ": " ++ cause

/-- The contents of all files together. -/
def contents (request : Request) (wording : String → String → String) (paths : List String) :
    String × Result :=
  let (files, result) := request.readAll wording paths
  (files.foldl (fun text file => text ++ file.2) "", result)

end Request

/-! ## Options -/

/-- What the arguments say: letters, with values where they take one, and the
arguments that are no options. -/
structure Options where
  chosen : List (Char × String) := []
  operands : List String := []
deriving Repr, Inhabited

namespace Options

/-- A letter is among the options. -/
def has (options : Options) (letter : Char) : Bool := (options.chosen.lookup letter).isSome

/-- The value that was given last with a letter. -/
def value? (options : Options) (letter : Char) : Option String :=
  options.chosen.reverse.lookup letter

/-- Adds a letter with a value. -/
def add (letter : Char) (value : String) (options : Options) : Options :=
  { options with chosen := (letter, value) :: options.chosen }

end Options

/-- How a utility understands its options. -/
structure Spelling where
  /-- Letters that stand alone. -/
  flags : String := ""
  /-- Letters that a value follows. -/
  valued : String := ""
  /-- Long names, with the letters that they mean. -/
  long : List (String × Char) := []
  /-- Operands end the options. -/
  ordered : Bool := false

/-- Why options make no sense. -/
inductive OptionFault where
  | unknown (letter : Char)
  | unknownName (name : String)
  | valueMissing (letter : Char)
deriving DecidableEq, Repr

namespace Spelling

/-- The options in a cluster of letters, and whether the last of them still
needs a value, which is then the next argument. -/
def letters? (spelling : Spelling) : List Char → Except OptionFault (List (Char × String) × Option Char)
  | [] => .ok ([], none)
  | c :: cs =>
    if spelling.valued.toList.contains c then
      if cs.isEmpty then .ok ([], some c) else .ok ([(c, String.ofList cs)], none)
    else if spelling.flags.toList.contains c then do
      let (rest, pending) ← spelling.letters? cs
      return ((c, "") :: rest, pending)
    else .error (.unknown c)

/-- Sorts arguments into options and operands. -/
def read (spelling : Spelling) : List String → Except OptionFault Options
  | [] => .ok {}
  | "--" :: args => .ok { operands := args }
  | arg :: args =>
    if arg.startsWith "--" then
      let (name, value) := match (arg.drop 2).toString.splitOn "=" with
        | name :: parts@(_ :: _) => (name, some (String.intercalate "=" parts))
        | _ => ((arg.drop 2).toString, none)
      match spelling.long.lookup name, value with
      | some letter, some value => do return (← spelling.read args).add letter value
      | some letter, none =>
        if spelling.valued.toList.contains letter then
          match args with
          | value :: args => do return (← spelling.read args).add letter value
          | [] => .error (.valueMissing letter)
        else do return (← spelling.read args).add letter ""
      | none, _ => .error (.unknownName name)
    else if arg.startsWith "-" && arg != "-" then
      match spelling.letters? (arg.toList.drop 1) with
      | .error fault => .error fault
      | .ok (chosen, none) => do
        let options ← spelling.read args
        return { options with chosen := chosen ++ options.chosen }
      | .ok (chosen, some letter) =>
        match args with
        | value :: args => do
          let options ← spelling.read args
          return { options with chosen := chosen ++ (letter, value) :: options.chosen }
        | [] => .error (.valueMissing letter)
    else if spelling.ordered then .ok { operands := arg :: args }
    else do
      let options ← spelling.read args
      return { options with operands := arg :: options.operands }

end Spelling

/-- Runs a utility on lines that end with a zero octet, where its options ask for
that by a letter. -/
def Request.withEnds (request : Request) (utility : Request → Result) : Result :=
  let asks := fun (arg : String) =>
    arg == "--zero-terminated" || arg == "--null-data" ||
      (arg.startsWith "-" && arg.toList.contains 'z' &&
        (arg.toList.drop 1).all fun c => c.isAlpha && !"dekost".toList.contains c)
  if request.args.any asks then
    let args := (request.args.map fun arg =>
      if asks arg then (if arg.startsWith "--" then "" else String.ofList (arg.toList.filter (· != 'z'))) else arg)
    let args := args.zip request.args |>.filterMap fun (arg, old) =>
      if arg != old && arg.length ≤ 1 then none else some arg
    let result := utility { request with args := args, zeroEnded := true }
    { result with
      out := Request.swapEnds result.out, unread := result.unread.map Request.swapEnds }
  else utility request

/-- Runs a utility on its options, or complains about them with a status. -/
def Request.withOptions (request : Request) (spelling : Spelling) (status : Nat)
    (run : Options → Result) : Result :=
  match spelling.read request.args with
  | .ok options => run options
  | .error (.unknown letter) => request.unknownOption letter status
  | .error (.unknownName name) => request.misuse s!"unrecognized option '--{name}'" status
  | .error (.valueMissing letter) =>
    request.misuse s!"option requires an argument -- '{letter}'" status

end CommandCompletion.Script
