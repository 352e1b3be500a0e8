/-
Reading scripts.

A script is read line by line, a line with all the lines that its commands go on
in. Words of the language such as `if` count only where a command may begin; a
token that was read too early is put back. What goes wrong is reported with the
token that was not expected.

Commands stand in words and words in commands, so the readers call one another.
Every round takes a character or a token, and `fuel` bounds their number.
-/
import CommandCompletion.Script.Command
import CommandCompletion.Script.Octets

set_option autoImplicit false

namespace CommandCompletion.Script

/-! ## Tokens -/

/-- The smallest parts of a script. -/
inductive Token where
  | word (word : Word)
  /-- A word of the language, where one may stand. -/
  | keyword (name : String)
  | operator (sign : String)
  | redirection (stream : Option Nat) (sign : String)
  | lineEnd
  | textEnd
deriving Inhabited

/-- What a token is called when it is not expected. -/
def Token.title : Token → String
  | .word _ => "word"
  | .keyword name => s!"\"{name}\""
  | .operator sign => s!"\"{sign}\""
  | .redirection _ _ => "redirection"
  | .lineEnd => "newline"
  | .textEnd => "end of file"

/-- The words of the language. -/
def keywords : List String :=
  ["!", "case", "do", "done", "elif", "else", "esac", "fi", "for", "if", "in", "then", "until",
    "while", "\x7b", "\x7d"]

/-- Ends a list of commands that stands inside a command. -/
def Token.endsList : Token → Bool
  | .textEnd => true
  | .operator sign => sign == ")" || sign == ";;"
  | .keyword name => ["do", "done", "elif", "else", "esac", "fi", "then", "\x7d"].contains name
  | _ => false

/-! ## Readers -/

/-- Why a text is no script, and in which line. -/
structure Fault where
  line : Nat
  text : String
deriving Repr, Inhabited

/-- A script in the course of reading. -/
structure Source where
  rest : List Char
  line : Nat := 1
  /-- Lines that were taken from behind the present one. -/
  skipped : Nat := 0
  /-- A token that was put back. -/
  pending : Option Token := none

/-- Reads a part of a script. -/
abbrev Reader (α : Type) := StateT Source (Except Fault) α

/-- Fails in the present line. -/
def fault {α : Type} (text : String) : Reader α := do
  throw ⟨(← get).line, "Syntax error: " ++ text⟩

/-- Fails at a token; `instead` is what should stand there. -/
def unexpected {α : Type} (token : Token) (instead : Option Token) : Reader α :=
  fault (token.title ++ " unexpected" ++ match instead with
    | some token => s!" (expecting {token.title})"
    | none => "")

/-- Goes on behind some characters. -/
def goOn (rest : List Char) : Reader Unit := modify fun source => { source with rest := rest }

/-- Goes on behind a line end. -/
def goOnLine (rest : List Char) : Reader Unit :=
  modify fun source =>
    { source with rest := rest, line := source.line + 1 + source.skipped, skipped := 0 }

/-- Goes on behind a character. -/
def goOnChar (c : Char) (rest : List Char) : Reader Unit :=
  if c = '\n' then goOnLine rest else goOn rest

/-- Puts a token back. -/
def putBack (token : Token) : Reader Unit :=
  modify fun source => { source with pending := some token }

/-! ## Characters of words -/

/-- May begin a name. -/
def isNameStart (c : Char) : Bool := c.isAlpha || c == '_'

/-- May stand in a name. -/
def isNameChar (c : Char) : Bool := c.isAlphanum || c == '_'

/-- Is a name. -/
def isName (text : String) : Bool :=
  match text.toList with
  | [] => false
  | c :: cs => isNameStart c && cs.all isNameChar

/-- A parameter of one sign. -/
def isSpecial (c : Char) : Bool := "*@#?-$!".toList.contains c || c.isDigit

/-- A blank of the command language. -/
def isGap (c : Char) : Bool := c == ' ' || c == '\t'

/-- Ends a bare word. -/
def endsWord (c : Char) : Bool := isGap c || c == '\n' || ";&|<>()".toList.contains c

/-- Where the parts of a word stand. -/
inductive Mode where
  | bare
  /-- Between double quotes. -/
  | double
  /-- Between the braces of a parameter; `quoted` if that stands in quotes. -/
  | braces (quoted : Bool)
  /-- A text in the script. -/
  | document
  /-- An arithmetic expression, inside so many open brackets. -/
  | arithmetic (depth : Nat)
deriving DecidableEq

namespace Mode

/-- What stands here is quoted. -/
def isQuoted : Mode → Bool
  | bare | braces false => false
  | _ => true

/-- A backslash takes away what is special about this character. -/
def escapes (mode : Mode) (c : Char) : Bool :=
  match mode with
  | bare | braces false => true
  | double => "$\"\\".toList.contains c || c == grave
  | braces true => "$\"\\".toList.contains c || c == grave || c == '\x7d'
  | document | arithmetic _ => "$\\".toList.contains c || c == grave

end Mode

/-- The text up to a closing grave accent, and what follows it. A backslash
before a sign that is special there is dropped. -/
def untilGrave? (quoted : Bool) : List Char → Option (List Char × List Char)
  | [] => none
  | '\\' :: c :: cs =>
    let drops := c == grave || c == '\\' || c == '$' || (quoted && c == '"')
    (untilGrave? quoted cs).map fun (text, rest) => (if drops then c :: text else '\\' :: c :: text, rest)
  | c :: cs =>
    if c = grave then some ([], cs)
    else (untilGrave? quoted cs).map fun (text, rest) => (c :: text, rest)

/-! ## Tokens of a text -/

/-- Passes over blanks, comments and line ends behind a backslash. -/
def skipGaps : List Char → Nat → List Char × Nat
  | '\\' :: '\n' :: cs, lines => skipGaps cs (lines + 1)
  | c :: cs, lines =>
    if isGap c then skipGaps cs lines
    else if c = '#' then (cs.dropWhile (· != '\n'), lines)
    else (c :: cs, lines)
  | [], lines => ([], lines)

/-- The sign of a redirection in front of a text. -/
def redirectionSign? (cs : List Char) : Option String :=
  ["<<-", "<<", "<&", "<>", "<", ">>", ">|", ">&", ">"].find? fun sign => sign.toList.isPrefixOf cs

/-- The next token of the text. -/
def readToken (readWord : Reader Word) : Reader Token := do
  let source ← get
  let (cs, lines) := skipGaps source.rest 0
  set { source with rest := cs, line := source.line + lines }
  match cs with
  | [] => return .textEnd
  | '\n' :: cs => goOnLine cs; return .lineEnd
  -- Signs of two characters come before those of one.
  | '&' :: '&' :: cs => goOn cs; return .operator "&&"
  | '|' :: '|' :: cs => goOn cs; return .operator "||"
  | ';' :: ';' :: cs => goOn cs; return .operator ";;"
  | c :: cs =>
    -- A digit right before the sign names the stream.
    let (stream, behind) := if c.isDigit then (some (c.toNat - '0'.toNat), cs) else (none, c :: cs)
    if "&|;()".toList.contains c then goOn cs; return .operator (String.singleton c)
    else match redirectionSign? behind with
      | some sign => goOn (behind.drop sign.length); return .redirection stream sign
      | none => return .word (← readWord)

/-- The next token, which may be one that was put back. Words of the language
are told apart if `asKeyword` says so, and `passLines` passes over line ends. -/
def nextToken (readWord : Reader Word) (asKeyword passLines : Bool) : Reader Token := do
  let source ← get
  set { source with pending := none }
  let first ← match source.pending with
    | some token => pure token
    | none => readToken readWord
  let rec pass : Nat → Token → Reader Token
    | rounds + 1, .lineEnd => do pass rounds (← readToken readWord)
    | _, token => return token
  let token ← if passLines then pass (source.rest.length + 1) first else pure first
  -- A word is one of the language only as a whole, and with nothing quoted in it.
  match token with
  | .word word =>
    match word.bare? with
    | some name =>
      if asKeyword && keywords.contains name then return .keyword name else return .word word
    | none => return .word word
  | token => return token

/-! ## Texts in the script -/

/-- The text of a word without its quotes. -/
def Word.plain (word : Word) : String :=
  String.ofList (word.flatMap fun part =>
    match part with
    | Part.char _ c => [c]
    | Part.parameter _ name _ => '$' :: name.toList
    | _ => [])

/-- Nothing in the word is quoted. -/
def Word.isBare (word : Word) : Bool :=
  word.all fun part =>
    match part with
    | Part.char quoted _ => !quoted
    | Part.quotes => false
    | _ => true

/-- The lines up to one that is `mark`, and those behind it. -/
def splitDocument (dropTabs : Bool) (mark : List Char) (text lines : List (List Char)) :
    List (List Char) × List (List Char) :=
  match lines with
  | [] => (text.reverse, [])
  | line :: lines =>
    let line := if dropTabs then line.dropWhile (· == '\t') else line
    if line = mark then (text.reverse, lines) else splitDocument dropTabs mark (line :: text) lines

/-- Takes the text that begins in the next line and ends with a line that is
`mark`. -/
def takeDocument (dropTabs : Bool) (mark : String) : Reader (List Char) := do
  let source ← get
  let here := source.rest.takeWhile (· != '\n')
  let behind := String.ofList ((source.rest.dropWhile (· != '\n')).drop 1)
  let all := (behind.splitOn "\n").map String.toList
  let (text, lines) := splitDocument dropTabs mark.toList [] all
  -- A text that the script ends in has no line end of its own.
  let closed := lines.length + text.length < all.length
  -- What follows on this line is still to be read, before the lines behind the text.
  let hasMore := source.rest.contains '\n'
  set { source with
    rest := here ++ (if hasMore then '\n' :: (List.intersperse ['\n'] lines).flatten else [])
    skipped := source.skipped + (if closed then all.length - lines.length else all.length - 1) }
  let joined := (List.intersperse ['\n'] text).flatten
  return if closed && !text.isEmpty then joined ++ ['\n'] else joined

/-! ## Words and commands -/

/-- Which list of commands is read: a line, the inside of a command, or one that
may be empty. -/
inductive Listing where
  | line | body | clause
deriving DecidableEq

/-- One command for a list of them. -/
def Command.ofList : List Command → Command
  | [command] => command
  | commands => .sequence commands

/-- The name and the value, for a word that assigns one. -/
def assignment? (word : Word) : Option (String × Word) := do
  let name := word.takeWhile fun part =>
    match part with
    | Part.char false c => isNameChar c
    | _ => false
  let text ← Word.bare? name
  match word.drop name.length with
  | Part.char false '=' :: value => if isName text then some (text, value) else none
  | _ => none

/-- The number of the stream that a redirection is about. -/
def streamOf (stream : Option Nat) (sign : String) : Nat :=
  stream.getD (if sign.startsWith "<" then 0 else 1)

/-- Where a sign leads to. A text is not read here. -/
def Target.ofSign (sign : String) (word : Word) : Target :=
  -- Signs that write from the start of a file come last.
  match sign with
  | ">>" => .extend word
  | "<" => .read word
  | "<>" => .readWrite word
  | ">&" | "<&" => .stream word
  | _ => .write word

mutual

/-- The parts of a word up to where it ends. -/
def readParts : (fuel : Nat) → Mode → Reader Word
  | 0, _ => fault "word too long"
  | fuel + 1, mode => do
    let source ← get
    let more (part : Part) (rest : List Char) : Reader Word := do
      goOn rest
      return part :: (← readParts fuel mode)
    match source.rest with
    | [] =>
      match mode with
      | .bare | .document => return []
      | .double => fault "Unterminated quoted string"
      | .braces _ => fault "Missing '\x7d'"
      | .arithmetic _ => fault "Missing '))'"
    | '\\' :: '\n' :: cs => goOnLine cs; readParts fuel mode
    | ['\\'] => more (.char true '\\') []
    | '\\' :: c :: cs =>
      if mode.escapes c then more (.char true c) cs else more (.char true '\\') (c :: cs)
    | '$' :: cs =>
      goOn cs
      let parts ← readDollar fuel mode.isQuoted
      return parts ++ (← readParts fuel mode)
    | c :: cs =>
      -- The text between the accents is read as a script of its own, in place of what is left.
      if c = grave then
        match untilGrave? (mode = .double) cs with
        | none => fault "EOF in backquote substitution"
        | some (text, rest) =>
          set { source with rest := text }
          let commands ← readList fuel .clause []
          set { source with rest := rest, line := (← get).line }
          return .output mode.isQuoted (.ofList commands) :: (← readParts fuel mode)
      -- Between single quotes every character stands for itself, line ends included.
      else if c = '\'' && !mode.isQuoted then
        let text := cs.takeWhile (· != '\'')
        match cs.dropWhile (· != '\'') with
        | [] =>
          modify fun source => { source with line := source.line + text.count '\n' }
          fault "Unterminated quoted string"
        | _ :: rest =>
          modify fun source => { source with rest := rest, line := source.line + text.count '\n' }
          return (if text.isEmpty then [.quotes] else text.map (.char true)) ++
            (← readParts fuel mode)
      else if c = '"' && !mode.isQuoted then
        goOn cs
        let inside ← readParts fuel .double
        goOn ((← get).rest.drop 1)
        return (if inside.isEmpty then [.quotes] else inside) ++ (← readParts fuel mode)
      else
        match mode, c with
        | .double, '"' => return []
        -- Quotes between quoted braces make no difference.
        | .braces true, '"' => goOn cs; readParts fuel mode
        | .braces _, '\x7d' => return []
        | .arithmetic depth, '(' =>
          goOn cs
          return .char true c :: (← readParts fuel (.arithmetic (depth + 1)))
        | .arithmetic 0, ')' =>
          if cs.head? = some ')' then return [] else more (.char true c) cs
        | .arithmetic (depth + 1), ')' =>
          goOn cs
          return .char true c :: (← readParts fuel (.arithmetic depth))
        | mode, c =>
          if mode = .bare && endsWord c then return []
          else
            goOnChar c cs
            return .char mode.isQuoted c :: (← readParts fuel mode)

/-- What stands behind a dollar sign. -/
def readDollar : (fuel : Nat) → (quoted : Bool) → Reader Word
  | 0, _ => fault "word too long"
  | fuel + 1, quoted => do
    match (← get).rest with
    | '(' :: '(' :: cs =>
      goOn cs
      let expression ← readParts fuel (.arithmetic 0)
      goOn ((← get).rest.drop 2)
      return [.arithmetic quoted expression]
    | '(' :: cs =>
      goOn cs
      let commands ← readList fuel .clause []
      match ← nextToken (readParts fuel .bare) false false with
      | .operator ")" => return [.output quoted (.ofList commands)]
      | token => unexpected token (some (.operator ")"))
    | '\x7b' :: cs => goOn cs; return [← readBraces fuel quoted]
    | c :: cs =>
      if isNameStart c then
        goOn (cs.dropWhile isNameChar)
        return [.parameter quoted (String.ofList (c :: cs.takeWhile isNameChar)) .none]
      else if isSpecial c then
        goOn cs
        return [.parameter quoted (String.singleton c) .none]
      else return [.char quoted '$']
    | [] => return [.char quoted '$']

/-- A parameter in braces, behind the opening one. -/
def readBraces : (fuel : Nat) → (quoted : Bool) → Reader Part
  | 0, _ => fault "word too long"
  | fuel + 1, quoted => do
    let cs := (← get).rest
    let nameOf (cs : List Char) : List Char :=
      match cs with
      | c :: _ =>
        if isNameStart c then cs.takeWhile isNameChar
        else if c.isDigit then cs.takeWhile Char.isDigit
        else if isSpecial c then [c]
        else []
      | [] => []
    let close (part : Part) (cs : List Char) : Reader Part := do
      match cs with
      | '\x7d' :: rest => goOn rest; return part
      | _ =>
        -- What follows is passed over; the braces are refused when they are needed.
        goOn cs
        let _ ← readParts fuel (.braces quoted)
        goOn ((← get).rest.drop 1)
        return .malformed
    match cs with
    | '#' :: c :: cs' =>
      let name := nameOf (c :: cs')
      let behind := (c :: cs').drop name.length
      -- A sharp sign in front of a name asks for the length; by itself it is a name.
      if !name.isEmpty && behind.head? == some '\x7d' then
        close (.parameter quoted (String.ofList name) .length) behind
      else readChange fuel quoted "#" (c :: cs')
    | cs =>
      let name := nameOf cs
      if name.isEmpty then close .malformed ('?' :: cs)
      else readChange fuel quoted (String.ofList name) (cs.drop name.length)

/-- What is made of a parameter, behind its name in braces. -/
def readChange : (fuel : Nat) → (quoted : Bool) → (name : String) → List Char → Reader Part
  | 0, _, _, _ => fault "word too long"
  | fuel + 1, quoted, name, cs => do
    let finish (asQuoted : Bool) (change : Word → Change) (cs : List Char) : Reader Part := do
      goOn cs
      let word ← readParts fuel (.braces asQuoted)
      goOn ((← get).rest.drop 1)
      return .parameter quoted name (change word)
    let (emptyToo, cs) := match cs with
      | ':' :: cs => (true, cs)
      | cs => (false, cs)
    match cs with
    | '\x7d' :: rest =>
      goOn rest
      return if emptyToo then .malformed else .parameter quoted name .none
    | '-' :: cs => finish quoted (.fallback emptyToo) cs
    | '=' :: cs => finish quoted (.assign emptyToo) cs
    | '?' :: cs => finish quoted (.insist emptyToo) cs
    | '+' :: cs => finish quoted (.replace emptyToo) cs
    | '#' :: '#' :: cs => finish false (.cutFront true) cs
    | '#' :: cs => finish false (.cutFront false) cs
    | '%' :: '%' :: cs => finish false (.cutBack true) cs
    | '%' :: cs => finish false (.cutBack false) cs
    | cs => finish quoted (fun _ => .none) cs >>= fun _ => return .malformed

/-- The word behind the sign of a redirection, with what it leads to. -/
def readTarget : (fuel : Nat) → (sign : String) → Reader Target
  | 0, _ => fault "word too long"
  | fuel + 1, sign => do
    match ← nextToken (readParts fuel .bare) false false with
    | .word word =>
      if sign = "<<" || sign = "<<-" then
        let text ← takeDocument (sign = "<<-") word.plain
        -- Quotes in the mark keep parameters in the text from being replaced.
        if word.isBare then
          let source ← get
          set { source with rest := text }
          let parts ← readParts fuel .document
          set source
          return .document parts
        else return .document (text.map (.char true))
      else return .ofSign sign word
    | token => unexpected token none

/-- The commands of a list. `done` holds those read so far. -/
def readList : (fuel : Nat) → Listing → (done : List Command) → Reader (List Command)
  | 0, _, _ => fault "script too long"
  | fuel + 1, listing, done => do
    match ← nextToken (readParts fuel .bare) true (listing != .line) with
    | .lineEnd => return done
    | .textEnd => putBack .textEnd; return done
    | token =>
      putBack token
      -- The inside of a command may not be empty, while the list of a clause may.
      let mayEnd := listing = .clause || (listing = .body && !done.isEmpty)
      if mayEnd && token.endsList then return done
      else
        let command ← readAndOr fuel
        match ← nextToken (readParts fuel .bare) false false with
        | .operator "&" => readList fuel listing (done ++ [.background command])
        | .operator ";" => readList fuel listing (done ++ [command])
        | .lineEnd => putBack .lineEnd; readList fuel listing (done ++ [command])
        | .textEnd => putBack .textEnd; return done ++ [command]
        | token =>
          if listing = .line then unexpected token none
          else putBack token; return done ++ [command]

/-- Pipelines, each of which depends on how the one before it ends. -/
def readAndOr : (fuel : Nat) → Reader Command
  | 0 => fault "script too long"
  | fuel + 1 => do readAndOrFrom fuel (← readPipeline fuel false)

/-- The pipelines that follow `first`. -/
def readAndOrFrom : (fuel : Nat) → (first : Command) → Reader Command
  | 0, _ => fault "script too long"
  | fuel + 1, first => do
    match ← nextToken (readParts fuel .bare) false false with
    | .operator "&&" => readAndOrFrom fuel (.both first (← readPipeline fuel true))
    | .operator "||" => readAndOrFrom fuel (.either first (← readPipeline fuel true))
    | token => putBack token; return first

/-- Commands joined by bars. -/
def readPipeline : (fuel : Nat) → (passLines : Bool) → Reader Command
  | 0, _ => fault "script too long"
  | fuel + 1, passLines => do
    let token ← nextToken (readParts fuel .bare) true passLines
    let negated := match token with
      | .keyword "!" => true
      | _ => false
    unless negated do putBack token
    let first ← readCommand fuel false
    let commands ← readPiped fuel
    if negated || !commands.isEmpty then return .pipeline negated (first :: commands)
    else return first

/-- The commands that follow bars. -/
def readPiped : (fuel : Nat) → Reader (List Command)
  | 0 => fault "script too long"
  | fuel + 1 => do
    match ← nextToken (readParts fuel .bare) false false with
    | .operator "|" =>
      let command ← readCommand fuel true
      return command :: (← readPiped fuel)
    | token => putBack token; return []

/-- Passes over a word of the language, or a bracket, that must stand here. -/
def expect : (fuel : Nat) → Token → Reader Unit
  | 0, _ => fault "script too long"
  | fuel + 1, wanted => do
    let token ← nextToken (readParts fuel .bare) true false
    unless token.title = wanted.title do unexpected token (some wanted)

/-- The inside of a command, up to the token that ends it. -/
def readBody : (fuel : Nat) → (close : Token) → Reader Command
  | 0, _ => fault "script too long"
  | fuel + 1, close => do
    let commands ← readList fuel .body []
    expect fuel close
    return .ofList commands

/-- What follows the condition of a choice, behind `then`. -/
def readBranches : (fuel : Nat) → (condition : Command) → Reader Command
  | 0, _ => fault "script too long"
  | fuel + 1, condition => do
    let consequence := Command.ofList (← readList fuel .body [])
    match ← nextToken (readParts fuel .bare) true false with
    | .keyword "elif" =>
      let next ← readBody fuel (.keyword "then")
      return .choice condition consequence (some (← readBranches fuel next))
    | .keyword "else" =>
      return .choice condition consequence (some (← readBody fuel (.keyword "fi")))
    | .keyword "fi" => return .choice condition consequence none
    | token => unexpected token (some (.keyword "fi"))

/-- Words up to a token of another kind, and that token. -/
def readWords : (fuel : Nat) → Reader (List Word × Token)
  | 0 => fault "script too long"
  | fuel + 1 => do
    match ← nextToken (readParts fuel .bare) false false with
    | .word word =>
      let (words, token) ← readWords fuel
      return (word :: words, token)
    | token => return ([], token)

/-- A loop over words, behind `for`. -/
def readEach : (fuel : Nat) → Reader Command
  | 0 => fault "script too long"
  | fuel + 1 => do
    let name ← match ← nextToken (readParts fuel .bare) false false with
      | .word word =>
        match (Word.bare? word).filter isName with
        | some name => pure name
        | none => fault "Bad for loop variable"
      | _ => fault "Bad for loop variable"
    let words ← match ← nextToken (readParts fuel .bare) true true with
      | .keyword "in" =>
        match ← readWords fuel with
        | (words, .lineEnd) | (words, .operator ";") => pure (some words)
        | (_, token) => unexpected token none
      | .operator ";" => pure none
      | token => putBack token; pure none
    match ← nextToken (readParts fuel .bare) true true with
    | .keyword "do" => return .each name words (← readBody fuel (.keyword "done"))
    | token => unexpected token (some (.keyword "do"))

/-- The patterns of a clause, from the first on. -/
def readPatterns : (fuel : Nat) → (first : Token) → Reader (List Word)
  | 0, _ => fault "script too long"
  | fuel + 1, first => do
    let pattern := match first with
      | .word word => word
      | .keyword name => name.toList.map (.char false)
      | _ => []
    match ← nextToken (readParts fuel .bare) false false with
    | .operator "|" =>
      let next ← nextToken (readParts fuel .bare) false false
      return pattern :: (← readPatterns fuel next)
    | .operator ")" => return [pattern]
    | token => unexpected token (some (.operator ")"))

/-- The clauses of a selection, up to `esac`. -/
def readClauses : (fuel : Nat) → Reader (List (List Word × Command))
  | 0 => fault "script too long"
  | fuel + 1 => do
    match ← nextToken (readParts fuel .bare) true true with
    | .keyword "esac" => return []
    | token =>
      let first ← match token with
        | .operator "(" => nextToken (readParts fuel .bare) false false
        | token => pure token
      let patterns ← readPatterns fuel first
      let body := Command.ofList (← readList fuel .clause [])
      match ← nextToken (readParts fuel .bare) true true with
      | .keyword "esac" => return [(patterns, body)]
      | .operator ";;" => return (patterns, body) :: (← readClauses fuel)
      | token => unexpected token (some (.operator ";;"))

/-- The redirections behind a command that is not simple. -/
def readRedirections : (fuel : Nat) → Reader (List Redirection)
  | 0 => fault "script too long"
  | fuel + 1 => do
    match ← nextToken (readParts fuel .bare) true false with
    | .redirection stream sign =>
      let target ← readTarget fuel sign
      return (streamOf stream sign, target) :: (← readRedirections fuel)
    | token => putBack token; return []

/-- The words of a simple command. `words` holds those read so far. -/
def readSimple : (fuel : Nat) → (line : Nat) → (assignments : List (String × Word)) →
    (words : List Word) → (redirections : List Redirection) → Reader Command
  | 0, _, _, _, _ => fault "script too long"
  | fuel + 1, line, assignments, words, redirections => do
    let finish := Command.simple line assignments words redirections
    match ← nextToken (readParts fuel .bare) false false with
    | .word word =>
      match if words.isEmpty then assignment? word else none with
      | some assignment => readSimple fuel line (assignments ++ [assignment]) words redirections
      | none => readSimple fuel line assignments (words ++ [word]) redirections
    | .redirection stream sign =>
      let target ← readTarget fuel sign
      readSimple fuel line assignments words (redirections ++ [(streamOf stream sign, target)])
    | .operator "(" =>
      match words with
      | [word] =>
        if assignments.isEmpty && redirections.isEmpty then
          match ← nextToken (readParts fuel .bare) false false with
          | .operator ")" =>
            match (Word.bare? word).filter isName with
            | some name => return .definition name (← readCommand fuel true)
            | none => fault "Bad function name"
          | token => unexpected token (some (.operator ")"))
        else putBack (.operator "("); return finish
      | _ => putBack (.operator "("); return finish
    | token => putBack token; return finish

/-- A command. -/
def readCommand : (fuel : Nat) → (passLines : Bool) → Reader Command
  | 0, _ => fault "script too long"
  | fuel + 1, passLines => do
    let redirect (command : Command) : Reader Command := do
      match ← readRedirections fuel with
      | [] => return command
      | redirections => return .redirected command redirections
    match ← nextToken (readParts fuel .bare) true passLines with
    | .keyword "if" =>
      let condition ← readBody fuel (.keyword "then")
      redirect (← readBranches fuel condition)
    | .keyword "while" =>
      let condition ← readBody fuel (.keyword "do")
      redirect (.loop false condition (← readBody fuel (.keyword "done")))
    | .keyword "until" =>
      let condition ← readBody fuel (.keyword "do")
      redirect (.loop true condition (← readBody fuel (.keyword "done")))
    | .keyword "for" => redirect (← readEach fuel)
    | .keyword "case" =>
      match ← nextToken (readParts fuel .bare) false false with
      | .word subject =>
        match ← nextToken (readParts fuel .bare) true true with
        | .keyword "in" => redirect (.select subject (← readClauses fuel))
        | token => unexpected token (some (.keyword "in"))
      | token => unexpected token (some (.word []))
    | .keyword "\x7b" => redirect (← readBody fuel (.keyword "\x7d"))
    | .operator "(" => redirect (.subshell (← readBody fuel (.operator ")")))
    | .word word => putBack (.word word); readSimple fuel (← get).line [] [] []
    | .redirection stream sign =>
      putBack (.redirection stream sign)
      readSimple fuel (← get).line [] [] []
    | token => unexpected token none

end

/-- The commands of the next line, and what follows it; `none` at the end of
the text. -/
def readLine (source : Source) : Except Fault (Option (List Command × Source)) :=
  match readList (8 * source.rest.length + 64) .line [] { source with pending := none } with
  | .error fault => .error fault
  | .ok (commands, after) =>
    let ended := match after.pending with
      | some .textEnd => true
      | _ => false
    if ended && commands.isEmpty then .ok none else .ok (some (commands, after))

end CommandCompletion.Script
