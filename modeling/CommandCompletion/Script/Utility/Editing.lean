/-
Editing streams.

A script of instructions is carried out for every line of the input. The line
lies in one buffer, which is written at the end of the script, and a second
buffer keeps a text from line to line.
-/
import CommandCompletion.Script.Regex
import CommandCompletion.Script.Utility.Basic
import CommandCompletion.Script.Utility.Lines

set_option autoImplicit false

namespace CommandCompletion.Script

namespace Editing

/-! ## Instructions -/

/-- Which lines are meant. No expression stands for the one used last. -/
inductive Address where
  | line (number : Nat)
  /-- Every so many lines, from a line on. -/
  | every (first step : Nat)
  | last
  | matching (regex : Option Regex) (ignoreCase : Bool)
  /-- So many lines behind the first of a range. -/
  | behind (count : Nat)
  /-- Up to a line whose number is a multiple. -/
  | multiple (step : Nat)

/-- A part of what is put in place of a match. -/
inductive Piece where
  | char (c : Char)
  | group (number : Nat)
  /-- What follows changes to capital letters, to small ones, or no longer. -/
  | upper
  | lower
  | plain
  /-- The next character changes. -/
  | upperNext
  | lowerNext

/-- What is done. -/
inductive Action where
  /-- The instructions up to the one of this number, for these lines only. -/
  | block (stop : Nat)
  | blockEnd
  | label (name : String)
  | substitute (regex : Option Regex) (ignoreCase : Bool) (pieces : List Piece) (all : Bool)
      (number : Nat) (print : Bool) (file : Option String)
  | translate (table : List (Char × Char))
  /-- Adds a text behind the line, before it, or puts it in the line's place. -/
  | append (text : String)
  | insert (text : String)
  | change (text : String)
  | appendFile (path : String)
  | writeFile (path : String)
  /-- Goes on at a label, or at the end of the script: always, if something was
  substituted, or if not. -/
  | jump (label : String)
  | jumpIf (label : String)
  | jumpUnless (label : String)
  | quit (status : Nat) (quietly : Bool)
  /-- Those that a letter says all about. -/
  | letter (c : Char)

/-- An instruction with the lines it is for. -/
structure Instruction where
  first : Option Address := none
  second : Option Address := none
  negated : Bool := false
  action : Action

/-! ## Reading -/

/-- A script in the course of reading. -/
structure Source where
  rest : List Char
  extended : Bool
  done : List Instruction := []
  /-- The numbers of the instructions that begin the open blocks. -/
  blocks : List Nat := []

/-- Reads a part of a script. What is wrong is said with the characters that
follow, `none` if it is about the whole. -/
abbrev Parse (α : Type) := StateT Source (Except (String × Option Nat)) α

/-- Fails here. -/
def fail {α : Type} (text : String) : Parse α := do
  throw (text, some (← get).rest.length)

/-- Goes on behind some characters. -/
def goOn (rest : List Char) : Parse Unit := modify fun source => { source with rest := rest }

/-- Passes over characters of a kind. -/
def skip (isSkipped : Char → Bool) : Parse Unit :=
  modify fun source => { source with rest := source.rest.dropWhile isSkipped }

/-- A blank of a script. -/
def isGap (c : Char) : Bool := Pattern.isBlank c && c != '\n'

/-- Takes the next character. -/
def next : Parse (Option Char) := do
  match (← get).rest with
  | c :: cs => goOn cs; return some c
  | [] => return none

/-- A number, `none` if there is none. -/
def number? : Parse (Option Nat) := do
  let cs := (← get).rest
  let digits := cs.takeWhile Char.isDigit
  goOn (cs.drop digits.length)
  return if digits.isEmpty then none else some (Text.digitsValue digits)

/-- The text up to a delimiter, and what follows it. A delimiter behind a
backslash belongs to the text; `\n` becomes a line end in an expression. -/
def delimited? (delimiter : Char) (isRegex : Bool) : List Char → Option (List Char × List Char)
  | [] => none
  | '\\' :: c :: cs =>
    (delimited? delimiter isRegex cs).map fun (text, rest) =>
      if c = delimiter then (c :: text, rest)
      else if c = 'n' && isRegex then ('\n' :: text, rest)
      else ('\\' :: c :: text, rest)
  | c :: cs =>
    if c = delimiter then some ([], cs)
    else (delimited? delimiter isRegex cs).map fun (text, rest) => (c :: text, rest)

/-- The expression that a text writes; an empty one stands for the one used last. -/
def readRegex (text : List Char) : Parse (Option Regex) := do
  if text.isEmpty then return none
  match Regex.ofText (← get).extended (String.ofList text) with
  | .ok regex => return some regex
  | .error trouble => fail trouble.message

/-- An expression as an address, behind the delimiter. -/
def readMatching (delimiter : Char) : Parse Address := do
  match delimited? delimiter true (← get).rest with
  | none => goOn []; fail "unterminated address regex"
  | some (text, rest) =>
    goOn rest
    let ignoreCase := rest.head? == some 'I'
    skip fun c => c == 'I' || c == 'M'
    return .matching (← readRegex text) ignoreCase

/-- An address, `none` if there is none. -/
def address? (isSecond : Bool) : Parse (Option Address) := do
  match (← get).rest with
  | '$' :: cs => goOn cs; return some .last
  | '/' :: cs => goOn cs; return some (← readMatching '/')
  | '\\' :: c :: cs => goOn cs; return some (← readMatching c)
  | '+' :: cs =>
    if isSecond then
      goOn cs
      return some (.behind ((← number?).getD 0))
    else return none
  | '~' :: cs =>
    if isSecond then
      goOn cs
      return some (.multiple ((← number?).getD 0))
    else return none
  | _ =>
    match ← number? with
    | none => return none
    | some first =>
      match (← get).rest with
      | '~' :: cs =>
        goOn cs
        return some (.every first ((← number?).getD 0))
      | _ => return some (.line first)

/-- The end of an instruction. -/
def endInstruction : Parse Unit := do
  skip isGap
  match (← get).rest with
  | [] => return
  | c :: cs =>
    if c = '\n' || c = ';' then goOn cs
    else if c = '\x7d' || c = '#' then return
    else
      goOn cs
      fail "extra characters after command"

/-- A text up to the end of the line; a backslash takes a line end in. -/
def textFrom : List Char → List Char × List Char
  | [] => ([], [])
  | '\\' :: c :: cs =>
    let (text, rest) := textFrom cs
    (c :: text, rest)
  | '\n' :: cs => ([], cs)
  | c :: cs =>
    let (text, rest) := textFrom cs
    (c :: text, rest)

/-- The text of an instruction that adds one. -/
def readText : Parse String := do
  skip isGap
  let cs ← match (← get).rest with
    | [] => fail "expected \\ after `a', `c' or `i'"
    | '\\' :: cs =>
      match cs.dropWhile isGap with
      | '\n' :: rest => pure rest
      | _ => pure cs
    | cs => pure cs
  let (text, rest) := textFrom cs
  goOn rest
  return if cs.isEmpty then "" else String.ofList text ++ "\n"

/-- A word up to a blank or a semicolon. -/
def readLabel : Parse String := do
  skip isGap
  let cs := (← get).rest
  let isPart := fun c => !Pattern.isBlank c && c != ';'
  goOn (cs.dropWhile isPart)
  return String.ofList (cs.takeWhile isPart)

/-- The rest of the line, which names a file. -/
def readPath : Parse String := do
  skip isGap
  let cs := (← get).rest
  goOn ((cs.dropWhile (· != '\n')).drop 1)
  if (cs.takeWhile (· != '\n')).isEmpty then fail "missing filename in r/R/w/W commands"
  return String.ofList (cs.takeWhile (· != '\n'))

/-- The parts of what is put in place of a match. -/
def piecesOf : List Char → List Piece
  | [] => []
  | '\\' :: c :: cs =>
    let piece := match c with
      | 'n' => Piece.char '\n'
      | 't' => .char '\t'
      | 'U' => .upper
      | 'L' => .lower
      | 'E' => .plain
      | 'u' => .upperNext
      | 'l' => .lowerNext
      | c => if c.isDigit then .group (c.toNat - '0'.toNat) else .char c
    piece :: piecesOf cs
  | '&' :: cs => .group 0 :: piecesOf cs
  | c :: cs => .char c :: piecesOf cs

/-- The number of groups in an expression. -/
def groupCount : Regex → Nat
  | .group number body => max number (groupCount body)
  | .sequence first second | .choice first second => max (groupCount first) (groupCount second)
  | .many body _ _ => groupCount body
  | _ => 0

/-- What the letters behind a substitution say. -/
structure Flags where
  all : Bool := false
  print : Bool := false
  ignoreCase : Bool := false
  number : Option Nat := none
  file : Option String := none

/-- The letters behind a substitution. -/
def readFlags : (rounds : Nat) → Flags → Parse Flags
  | 0, flags => return flags
  | rounds + 1, flags => do
    match (← get).rest with
    | 'g' :: cs =>
      goOn cs
      if flags.all then fail "multiple `g' options to `s' command"
      readFlags rounds { flags with all := true }
    | 'p' :: cs =>
      goOn cs
      if flags.print then fail "multiple `p' options to `s' command"
      readFlags rounds { flags with print := true }
    | 'i' :: cs | 'I' :: cs => goOn cs; readFlags rounds { flags with ignoreCase := true }
    | 'm' :: cs | 'M' :: cs | 'e' :: cs => goOn cs; readFlags rounds flags
    | 'w' :: cs =>
      goOn cs
      return { flags with file := some (← readPath) }
    | c :: cs =>
      if c.isDigit then
        let number ← number?
        if number = some 0 then fail "number option to `s' command may not be zero"
        readFlags rounds { flags with number := number }
      else if isGap c then goOn cs; readFlags rounds flags
      else if c = '\n' || c = ';' then goOn cs; return flags
      else if c = '\x7d' || c = '#' then return flags
      else
        goOn cs
        fail "unknown option to `s'"
    | [] => return flags

/-- A substitution, behind its letter. -/
def readSubstitution : Parse Action := do
  let unterminated := "unterminated `s' command"
  match (← get).rest with
  | delimiter :: cs =>
    match delimited? delimiter true cs with
    | none => goOn []; fail unterminated
    | some (pattern, rest) =>
      match delimited? delimiter false rest with
      | none => goOn []; fail unterminated
      | some (replacement, rest) =>
        goOn rest
        let flags ← readFlags (rest.length + 1) {}
        let regex ← readRegex pattern
        let pieces := piecesOf replacement
        for piece in pieces do
          match piece, regex with
          | .group number, some regex =>
            if groupCount regex < number then
              fail s!"invalid reference \\{number} on `s' command's RHS"
          | _, _ => pure ()
        return .substitute regex flags.ignoreCase pieces flags.all (flags.number.getD 1) flags.print
          flags.file
  | [] => fail unterminated

/-- Characters of a translation, without backslashes. -/
def unescaped : List Char → List Char
  | '\\' :: 'n' :: cs => '\n' :: unescaped cs
  | '\\' :: c :: cs => c :: unescaped cs
  | c :: cs => c :: unescaped cs
  | [] => []

/-- A translation, behind its letter. -/
def readTranslation : Parse Action := do
  let unterminated := "unterminated `y' command"
  match (← get).rest with
  | delimiter :: cs =>
    match delimited? delimiter false cs with
    | none => goOn []; fail unterminated
    | some (origin, rest) =>
      match delimited? delimiter false rest with
      | none => goOn []; fail unterminated
      | some (image, rest) =>
        goOn rest
        let (origin, image) := (unescaped origin, unescaped image)
        if origin.length ≠ image.length then
          fail "strings for `y' command are different lengths"
        endInstruction
        return .translate (origin.zip image)
  | [] => fail unterminated

/-- Adds an instruction to those read. -/
def add (instruction : Instruction) : Parse Unit :=
  modify fun source => { source with done := source.done ++ [instruction] }

/-- What an instruction does, behind its addresses. -/
def readAction (letter : Char) : Parse Action := do
  match letter with
  | '=' | 'd' | 'D' | 'g' | 'G' | 'h' | 'H' | 'n' | 'N' | 'p' | 'P' | 'x' | 'z' | 'F' =>
    endInstruction
    return .letter letter
  | 'l' =>
    skip isGap
    let _ ← number?
    endInstruction
    return .letter letter
  | 'a' => return .append (← readText)
  | 'i' => return .insert (← readText)
  | 'c' => return .change (← readText)
  | 'r' => return .appendFile (← readPath)
  | 'w' => return .writeFile (← readPath)
  | 's' => readSubstitution
  | 'y' => readTranslation
  | 'b' => let label ← readLabel; endInstruction; return .jump label
  | 't' => let label ← readLabel; endInstruction; return .jumpIf label
  | 'T' => let label ← readLabel; endInstruction; return .jumpUnless label
  | 'q' | 'Q' =>
    skip isGap
    let status ← number?
    endInstruction
    return .quit (status.getD 0) (letter == 'Q')
  | c => fail s!"unknown command: `{c}'"

/-- The instructions of a script. -/
def readInstructions : (rounds : Nat) → Parse Unit
  | 0 => return
  | rounds + 1 => do
    skip fun c => Pattern.isBlank c || c == ';'
    match (← get).rest with
    | [] => return
    | '#' :: cs => goOn (cs.dropWhile (· != '\n')); readInstructions rounds
    | _ =>
      let first ← address? false
      skip isGap
      let second ← match first, (← get).rest with
        | some _, ',' :: cs =>
          goOn (cs.dropWhile isGap)
          match ← address? true with
          | some address => pure (some address)
          | none => fail "unexpected ','"
        | _, _ => pure none
      skip isGap
      let negated := (← get).rest.head? == some '!'
      skip fun c => c == '!' || isGap c
      let index := (← get).done.length
      match ← next with
      | none => fail "missing command"
      | some '\x7b' =>
        modify fun source => { source with blocks := index :: source.blocks }
        add ⟨first, second, negated, .block 0⟩
      | some '\x7d' =>
        match (← get).blocks with
        | [] => fail "unexpected `\x7d'"
        | start :: blocks =>
          modify fun source => { source with
            blocks := blocks
            done := source.done.modify start fun opening => { opening with action := .block index } }
          endInstruction
          add ⟨none, none, false, .blockEnd⟩
      | some ':' =>
        let name ← readLabel
        if name.isEmpty then fail "\":\" lacks a label"
        add ⟨none, none, false, .label name⟩
      | some letter =>
        let action ← readAction letter
        let lone := match action with
          | .quit _ _ => true
          | _ => false
        if lone && second.isSome then fail "command only uses one address"
        add ⟨first, second, negated, action⟩
      readInstructions rounds

/-- The label that an instruction goes on at. -/
def Action.goal? : Action → Option String
  | .jump name | .jumpIf name | .jumpUnless name => if name.isEmpty then none else some name
  | _ => none

/-- The number of the instruction behind a label. -/
def place? (script : List Instruction) (label : String) : Option Nat :=
  script.findIdx? fun instruction =>
    match instruction.action with
    | .label name => name == label
    | _ => false

/-- The script that a text writes, or what is wrong and the status that comes of
it. -/
def ofText (extended : Bool) (text : String) : Except (String × Nat) (List Instruction) :=
  let cs := text.toList
  let misplaced := fun (text : String) (position : Nat) =>
    (s!"-e expression #1, char {position}: " ++ text, 1)
  match (readInstructions (cs.length + 1)).run { rest := cs, extended := extended } with
  | .error (text, behind) => .error (misplaced text (behind.elim 0 (cs.length - ·)))
  | .ok (_, source) =>
    if !source.blocks.isEmpty then .error (misplaced "unmatched `\x7b'" 0)
    else
      match (source.done.filterMap (·.action.goal?)).find? fun label => (place? source.done label).isNone with
      | some label => .error (s!"can't find label for jump to `{label}'", 1)
      | none => .ok source.done

/-! ## Carrying out -/

/-- An editor at work. -/
structure State where
  /-- The line, and the text that is kept. -/
  line : String := ""
  kept : String := ""
  number : Nat := 0
  /-- The lines that follow. -/
  rest : List String
  /-- The last line of the input has no line end. -/
  unended : Bool
  out : String := ""
  /-- What was written last lacks its line end. -/
  missing : Bool := false
  /-- What follows the line. -/
  queue : List String := []
  /-- Something was substituted since the line was read or a jump asked for it. -/
  changed : Bool := false
  /-- The ranges that are open, with the line they end in if that is known. -/
  ranges : List (Nat × Option Nat) := []
  lastRegex : Option (Regex × Bool) := none
  /-- What goes to files. -/
  files : List (String × String) := []

/-- How a script goes on after an instruction. -/
inductive Outcome where
  /-- With the instruction of this number. -/
  | goto (index : Nat)
  /-- With the next line, after the present one was written. -/
  | ended
  /-- With the next line. -/
  | dropped
  /-- From the start, with what is left of the line. -/
  | again
  | quit (status : Nat) (quietly : Bool)
  | failed (text : String)

namespace State

/-- Writes a text. -/
def put (state : State) (text : String) : State :=
  if text.isEmpty then state
  else { state with out := state.out ++ (if state.missing then "\n" else "") ++ text, missing := false }

/-- The present line is the last. -/
def atEnd (state : State) : Bool := state.rest.isEmpty

/-- Writes a line. The last one has a line end only if it had one. -/
def putLine (state : State) (line : String) : State :=
  if state.atEnd && state.unended then
    { state with out := state.out ++ (if state.missing then "\n" else "") ++ line, missing := true }
  else state.put (line ++ "\n")

/-- Writes what follows the line. -/
def flush (state : State) : State :=
  state.queue.foldl put { state with queue := [] }

/-- Writes the line unless that is not wanted, and what follows it. -/
def finish (quiet : Bool) (state : State) : State :=
  (if quiet then state else state.putLine state.line).flush

/-- Adds a text to a file. -/
def putFile (state : State) (path text : String) : State :=
  if path = "/dev/stdout" then state.put text
  else
    let old := (state.files.lookup path).getD ""
    { state with files := (path, old ++ text) :: state.files.filter (·.1 != path) }

/-- Whether an address means the present line, with the expression it used. -/
def hits (state : State) : Address → Except String (Bool × State)
  | .line number => .ok (state.number == number, state)
  | .every first step =>
    .ok (if step = 0 then state.number == first
      else first ≤ state.number && (state.number - first) % step == 0, state)
  | .last => .ok (state.atEnd, state)
  | .behind _ | .multiple _ => .ok (false, state)
  | .matching regex ignoreCase =>
    match (regex.map (·, ignoreCase)) <|> state.lastRegex with
    | none => .error "no previous regular expression"
    | some (regex, ignoreCase) =>
      .ok ((Regex.find? ignoreCase regex state.line.toList.toArray 0).isSome,
        { state with lastRegex := some (regex, ignoreCase) })

/-- The line that ends a range that begins in the present one, if it is known. -/
def rangeEnd? (state : State) : Address → Option Nat
  | .line number => some number
  | .behind count => some (state.number + count)
  | .multiple step =>
    some (if step = 0 then state.number else (state.number + step - 1) / step * step)
  | _ => none

/-- Opens or closes the range of an instruction. -/
def setRange (state : State) (index : Nat) (range : Option (Option Nat)) : State :=
  let others := state.ranges.filter (·.1 != index)
  { state with ranges := range.elim others fun stop => (index, stop) :: others }

/-- Whether an instruction is for the present line. -/
def isFor (state : State) (index : Nat) (instruction : Instruction) : Except String (Bool × State) := do
  match instruction.first, instruction.second with
  | none, _ => return (true, state)
  | some first, none => state.hits first
  | some first, some second =>
    match state.ranges.lookup index with
    | some (some stop) =>
      if state.number < stop then return (true, state)
      else return (state.number == stop, state.setRange index none)
    | some none =>
      let (isStop, state) ← state.hits second
      return (true, if isStop then state.setRange index none else state)
    | none =>
      let (isStart, state) ← state.hits first
      if !isStart then return (false, state)
      else
        match state.rangeEnd? second with
        | some stop =>
          return (true, if stop ≤ state.number then state else state.setRange index (some (some stop)))
        | none => return (true, state.setRange index (some none))

end State

/-- What is put in place of a match. -/
def replacement (cs : Array Char) (found : Regex.Match) (pieces : List Piece) : String :=
  let change := fun (mode next : Char → Char) (text : List Char) =>
    match text with
    | [] => []
    | c :: cs => next (mode c) :: cs.map mode
  let step := fun (state : String × (Char → Char) × (Char → Char)) (piece : Piece) =>
    let (out, mode, next) := state
    let add := fun (text : List Char) =>
      (out ++ String.ofList (change mode next text), mode, if text.isEmpty then next else id)
    match piece with
    | .char c => add [c]
    | .group 0 => add (cs.extract found.first found.last).toList
    | .group number =>
      match found.groups.lookup number with
      | some (first, last) => add (cs.extract first last).toList
      | none => (out, mode, next)
    | .upper => (out, Char.toUpper, id)
    | .lower => (out, Char.toLower, id)
    | .plain => (out, id, id)
    | .upperNext => (out, mode, Char.toUpper)
    | .lowerNext => (out, mode, Char.toLower)
  (pieces.foldl step ("", id, id)).1

/-- A text with the matches of an expression replaced, from the one of a number on,
and how many there were. `count` have been found, the last of them up to `behind`. -/
def substituteFrom (ignoreCase : Bool) (regex : Regex) (pieces : List Piece) (all : Bool) (number : Nat)
    (cs : Array Char) :
    (rounds : Nat) → (position : Nat) → (count : Nat) → (behind : Option Nat) → String × Bool
  | 0, position, _, _ => (String.ofList (cs.extract position cs.size).toList, false)
  | rounds + 1, position, count, behind =>
    let copy := fun (first last : Nat) => String.ofList (cs.extract first last).toList
    match Regex.find? ignoreCase regex cs position with
    | none => (copy position cs.size, false)
    | some found =>
      let onward := fun (count : Nat) (text : String) (done : Bool) =>
        if found.last = found.first then
          if cs.size ≤ found.last then (copy position found.first ++ text, done)
          else
            let (rest, more) := substituteFrom ignoreCase regex pieces all number cs rounds
              (found.last + 1) count none
            (copy position found.first ++ text ++ copy found.last (found.last + 1) ++ rest, done || more)
        else
          let (rest, more) := substituteFrom ignoreCase regex pieces all number cs rounds found.last
            count (some found.last)
          (copy position found.first ++ text ++ rest, done || more)
      -- A match of nothing right behind another match does not count.
      if found.last = found.first && behind = some found.first then onward count "" false
      else if count + 1 < number then onward (count + 1) (copy found.first found.last) false
      else
        let text := replacement cs found pieces
        if all then onward (count + 1) text true
        else (copy position found.first ++ text ++ copy found.last cs.size, true)

/-- A line as it is shown with all its characters visible. -/
def visible (line : String) : String :=
  let show' := fun c : Char =>
    match c with
    | '\\' => "\\\\"
    | '\n' => "\\n"
    | '\t' => "\\t"
    | c =>
      if c.toNat = 7 then "\\a" else if c.toNat = 8 then "\\b" else if c.toNat = 12 then "\\f"
      else if c.toNat = 13 then "\\r" else if c.toNat = 11 then "\\v"
      else if 32 ≤ c.toNat && c.toNat < 127 then String.singleton c
      else "\\" ++ String.ofList (((Nat.toDigits 8 (c.toNat + 512)).drop 1))
  let step := fun (state : String × Nat) (text : String) =>
    if 69 < state.2 + text.length then (state.1 ++ "\\\n" ++ text, text.length)
    else (state.1 ++ text, state.2 + text.length)
  ((line.toList.map show').foldl step ("", 0)).1 ++ "$\n"

/-- Takes the next line of the input. -/
def State.advance (state : State) : Option (String × State) :=
  match state.rest with
  | [] => none
  | line :: rest => some (line, { state with rest := rest, number := state.number + 1 })

/-- Carries out what an instruction does. -/
def act (script : List Instruction) (readFile : String → Option String) (quiet : Bool) (index : Nat)
    (instruction : Instruction) (state : State) : State × Outcome :=
  let onward := Outcome.goto (index + 1)
  let goTo := fun (label : String) =>
    if label.isEmpty then Outcome.ended else .goto ((place? script label).getD script.length)
  match instruction.action with
  | .block _ | .blockEnd | .label _ => (state, onward)
  | .substitute regex ignoreCase pieces all number print file =>
    match (regex.map (·, ignoreCase)) <|> state.lastRegex with
    | none => (state, .failed "no previous regular expression")
    | some (regex, ignoreCase) =>
      let cs := state.line.toList.toArray
      let (line, done) := substituteFrom ignoreCase regex pieces all number cs (cs.size + 2) 0 0 none
      let state := { state with lastRegex := some (regex, ignoreCase) }
      if done then
        let state := { state with line := line, changed := true }
        let state := if print then state.putLine line else state
        (file.elim state fun path => state.putFile path (line ++ "\n"), onward)
      else (state, onward)
  | .translate table =>
    ({ state with line := state.line.map fun c => (table.lookup c).getD c }, onward)
  | .append text => ({ state with queue := state.queue ++ [text] }, onward)
  | .insert text => (state.put text, onward)
  | .change text =>
    let inRange := instruction.second.isSome && !instruction.negated &&
      (state.ranges.lookup index).isSome
    (if inRange then state else state.put text, .dropped)
  | .appendFile path =>
    ({ state with queue := state.queue ++ (readFile path).toList }, onward)
  | .writeFile path => (state.putFile path (state.line ++ "\n"), onward)
  | .jump label => (state, goTo label)
  | .jumpIf label => if state.changed then ({ state with changed := false }, goTo label) else (state, onward)
  | .jumpUnless label =>
    if state.changed then ({ state with changed := false }, onward) else (state, goTo label)
  | .quit status quietly => (state, .quit status quietly)
  | .letter letter =>
    let parts := state.line.splitOn "\n"
    match letter with
    | 'd' => (state, .dropped)
    | 'D' =>
      match parts with
      | _ :: rest@(_ :: _) => ({ state with line := String.intercalate "\n" rest }, .again)
      | _ => (state, .dropped)
    | 'p' => (state.putLine state.line, onward)
    | 'P' => (state.put (parts.headD "" ++ "\n"), onward)
    | '=' => (state.put (toString state.number ++ "\n"), onward)
    | 'F' => (state.put "-\n", onward)
    | 'l' => (state.put (visible state.line), onward)
    | 'g' => ({ state with line := state.kept }, onward)
    | 'G' => ({ state with line := state.line ++ "\n" ++ state.kept }, onward)
    | 'h' => ({ state with kept := state.line }, onward)
    | 'H' => ({ state with kept := state.kept ++ "\n" ++ state.line }, onward)
    | 'x' => ({ state with line := state.kept, kept := state.line }, onward)
    | 'z' => ({ state with line := "" }, onward)
    | 'n' =>
      if state.atEnd then (state, .quit 0 false)
      else
        match (state.finish quiet).advance with
        | some (line, state) => ({ state with line := line }, onward)
        | none => (state, onward)
    | 'N' =>
      if state.atEnd then (state, .quit 0 false)
      else
        match state.flush.advance with
        | some (line, state) => ({ state with line := state.line ++ "\n" ++ line }, onward)
        | none => (state, onward)
    | _ => (state, onward)

/-- Carries out the instructions from a number on. -/
def runScript (script : List Instruction) (readFile : String → Option String) (quiet : Bool) :
    (rounds : Nat) → (index : Nat) → State → State × Outcome
  | 0, _, state => (state, .failed "endless")
  | rounds + 1, index, state =>
    match script[index]? with
    | none => (state, .ended)
    | some instruction =>
      match state.isFor index instruction with
      | .error text => (state, .failed text)
      | .ok (isMeant, state) =>
        if isMeant != instruction.negated then
          match act script readFile quiet index instruction state with
          | (state, .goto index) => runScript script readFile quiet rounds index state
          | ended => ended
        else
          match instruction.action with
          | .block stop => runScript script readFile quiet rounds stop state
          | _ => runScript script readFile quiet rounds (index + 1) state

/-- Most instructions that are carried out for a line. -/
def maxSteps : Nat := 200000

/-- Goes through the input; the answer has the status, and what went wrong. -/
def runLines (script : List Instruction) (readFile : String → Option String) (quiet : Bool) :
    (rounds : Nat) → (fresh : Bool) → State → State × Nat × Option String
  | 0, _, state => (state, 0, none)
  | rounds + 1, fresh, state =>
    match if fresh then state.advance.map fun (line, state) => { state with line := line, changed := false }
      else some state with
    | none => (state, 0, none)
    | some state =>
      match runScript script readFile quiet maxSteps 0 state with
      | (state, .failed text) => (state, 1, some text)
      | (state, .quit status quietly) => (if quietly then state else state.finish quiet, status, none)
      | (state, .dropped) => runLines script readFile quiet rounds true state.flush
      | (state, .again) => runLines script readFile quiet rounds false state.flush
      | (state, _) => runLines script readFile quiet rounds true (state.finish quiet)

/-- The range that is open from the beginning, for instructions that count from
line zero. -/
def openRanges (script : List Instruction) : List (Nat × Option Nat) :=
  (script.zipIdx.filter fun (instruction, _) =>
    match instruction.first, instruction.second with
    | some (.line 0), some (.matching _ _) => true
    | _, _ => false).map fun (_, index) => (index, none)

/-- Edits a text; the answer has what is not read, the status and what went wrong. -/
def edit (script : List Instruction) (readFile : String → Option String) (quiet : Bool) (text : String) :
    State × Nat × Option String :=
  let lines := linesOf text
  runLines script readFile quiet (2 * text.length + 2) true {
    rest := lines, unended := !text.isEmpty && !text.endsWith "\n", ranges := openRanges script }

end Editing

/-- How the editor is used. -/
def editorUsage (name : String) : String :=
  s!"Usage: {name} [OPTION]... \x7bscript-only-if-no-other-script\x7d [input-file]...\n"

/-- Edits the lines of files by a script. -/
def sed (request : Request) : Result :=
  let spelling : Spelling := {
    flags := "nErsuzi", valued := "efl"
    long := [("quiet", 'n'), ("silent", 'n'), ("expression", 'e'), ("file", 'f'),
      ("regexp-extended", 'E'), ("in-place", 'i'), ("separate", 's'), ("null-data", 'z')] }
  -- What follows the letter for editing in place would name a copy.
  match spelling.read request.args with
  | .error (.unknown letter) =>
    { err := s!"{request.name}: invalid option -- '{letter}'\n" ++ editorUsage request.name, status := 1 }
  | .error (.unknownName name) =>
    { err := s!"{request.name}: unrecognized option '--{name}'\n" ++ editorUsage request.name
      status := 1 }
  | .error (.valueMissing letter) =>
    { err := s!"{request.name}: option requires an argument -- '{letter}'\n" ++ editorUsage request.name
      status := 1 }
  | .ok options =>
    let given : List (Except String String) := options.chosen.filterMap fun (letter, value) =>
      if letter = 'e' then some (.ok value)
      else if letter = 'f' then
        some (match request.read value with
          | .ok text => .ok (if text.endsWith "\n" then (text.dropEnd 1).toString else text)
          | .error cause => .error s!"couldn't open file {value}: {causeText cause}")
      else none
    let (parts, paths) := match given, options.operands with
      | [], script :: paths => ([Except.ok script], paths)
      | given, paths => (given, paths)
    if parts.isEmpty then { err := editorUsage request.name, status := 1 }
    else
      match parts.mapM (fun part : Except String String => part) with
      | .error text => request.complain text 1
      | .ok texts =>
        let text := String.intercalate "\n" texts
        match Editing.ofText (options.has 'E' || options.has 'r') text with
        | .error (text, status) => request.complain text status
        | .ok script =>
          let quiet := options.has 'n' || text.startsWith "#n\n" || text == "#n"
          let readFile := fun path => (request.read path).toOption
          let wording := fun (path : String) (cause : String) =>
            if cause = "Is a directory" then s!"read error on {path}: {cause}" else s!"can't read {path}: {cause}"
          let status := fun (state : Nat) (code : Nat) => if code = 0 then state else code
          if options.has 'i' then
            let step := fun (result : Result) (path : String) =>
              let request := { request with
                files := { request.files with root := result.root.getD request.files.root } }
              match request.read path with
              | .error .isDirectory =>
                result ++ request.complain s!"couldn't edit {path}: not a regular file" 4
              | .error cause => result ++ request.complain s!"can't read {path}: {causeText cause}" 2
              | .ok text =>
                let (state, code, trouble) := Editing.edit script readFile quiet text
                match trouble with
                | some text => result ++ request.complain s!"-e expression #1, char 0: {text}" 1
                | none =>
                  let files := request.files.putFile (decode path) (bytesOf state.out)
                  result ++ ({ status := code, root := some files.root } : Result)
            paths.foldl step {}
          else
            let (files, troubles) := request.readAll wording paths
            let troubles := { troubles with
              status := if (paths.any fun path => (request.find path).toOption.any Entry.isFolder) then 4
                else if troubles.status = 0 then 0 else 2 }
            -- A line end that is missing between two files is put in.
            let join := fun (text more : String) =>
              (if text.isEmpty || more.isEmpty || text.endsWith "\n" then text else text ++ "\n") ++ more
            let joined := files.foldl (fun text file => join text file.2) ""
            let texts := if options.has 's' then files.map (·.2) else [joined]
            let runs := texts.map (Editing.edit script readFile quiet)
            match runs.findSome? fun (_, _, trouble) => trouble with
            | some text => request.complain s!"-e expression #1, char 0: {text}" 1
            | none =>
              let states := runs.map (·.1)
              let changes := states.flatMap fun state => state.files.reverse
              let written := changes.foldl
                (fun (files : Files) (path, text) => files.putFile (decode path) (bytesOf text)) request.files
              { troubles with
                out := states.foldl (fun text state => join text state.out) ""
                status := runs.foldl (fun code run => status code run.2.1) troubles.status
                unread := troubles.unread.map fun _ => ofLines (states.flatMap fun state => state.rest)
                root := if changes.isEmpty then none else some written.root }

end CommandCompletion.Script
