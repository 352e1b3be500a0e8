/-
Reading TOML documents.

Each reader takes one thing from the front of the text: a key, a value, a
statement. Repetition is bounded by the length of the text, since every round
takes at least one character, and brackets may nest only so deep.
-/
import CommandCompletion.Toml.Scalar

set_option autoImplicit false

namespace CommandCompletion.Toml

/-! ## Between the parts -/

/-- The text without blanks in front. Line ends stay, since they end a statement. -/
def skipBlanks (cs : List Char) : List Char := cs.dropWhile isBlank

/-- The text without blanks, line ends and comments in front; `none` if a
comment has a character that no text may have. -/
def skipGap (inComment : Bool) : List Char → Option (List Char)
  | [] => some []
  | '\n' :: cs => skipGap false cs
  | '\r' :: '\n' :: cs => skipGap false cs
  | c :: cs =>
    if inComment then if isTextChar c then skipGap true cs else none
    else if isBlank c then skipGap false cs
    else if c = '#' then skipGap true cs
    else some (c :: cs)

/-- The next line, where nothing but blanks and a comment may be left on this
one. -/
def endLine? (inComment : Bool) : List Char → Option (List Char)
  | [] => some []
  | '\n' :: cs => some cs
  | '\r' :: '\n' :: cs => some cs
  | c :: cs =>
    if inComment then if isTextChar c then endLine? true cs else none
    else if isBlank c then endLine? false cs
    else if c = '#' then endLine? true cs
    else none

/-! ## Keys -/

/-- May stand in a key without quotes: a letter or digit of ASCII, an underscore, a dash. -/
def isKeyChar (c : Char) : Bool := c.isAlphanum || c == '_' || c == '-'

/-- A key without dots, bare or in quotes of one line. -/
def readSimpleKey : Reader String
  | '"' :: cs => (readBasic cs).map fun (text, rest) => (String.ofList text, rest)
  | '\'' :: cs => (readLiteral cs).map fun (text, rest) => (String.ofList text, rest)
  | cs =>
    let key := cs.takeWhile isKeyChar
    if key.isEmpty then none else some (String.ofList key, cs.dropWhile isKeyChar)

/-- The keys that follow the dots; `rounds` bounds their number. -/
def readKeysFrom (rounds : Nat) (first : String) (cs : List Char) :
    Option ((List String × String) × List Char) :=
  match rounds, skipBlanks cs with
  | rounds + 1, '.' :: cs => do
    let (next, cs) ← readSimpleKey (skipBlanks cs)
    let ((path, key), cs) ← readKeysFrom rounds next cs
    return ((first :: path, key), cs)
  | _, cs => some (([], first), cs)

/-- How deep brackets and braces may nest, and how many parts a key may have. -/
def maxLevels : Nat := 80

/-- Keys parted by dots: the path and the last one. Blanks on both sides are
taken. -/
def readKey : Reader (List String × String) := fun cs => do
  let (first, cs) ← readSimpleKey (skipBlanks cs)
  let ((path, key), cs) ← readKeysFrom cs.length first cs
  if path.length < maxLevels then return ((path, key), cs) else none

/-! ## Values -/

/-- Items parted by commas up to a closing bracket, with gaps between them; a
comma may follow the last one. `rounds` bounds their number. -/
def readItems {α : Type} (close : Char) (readItem : Reader α) : (rounds : Nat) → Reader (List α)
  | 0, _ => none
  | rounds + 1, cs => do
    match ← skipGap false cs with
    | [] => none
    | c :: rest =>
      if c = close then return ([], rest)
      else
        let (item, rest) ← readItem (c :: rest)
        match ← skipGap false rest with
        | [] => none
        | c :: rest =>
          if c = close then return ([item], rest)
          else if c = ',' then
            let (items, rest) ← readItems close readItem rounds rest
            return (item :: items, rest)
          else none

/-- A key, an equals sign and a value; `skip` takes what may stand between them, which is more in
braces than on a line. -/
def readPair (skip : List Char → Option (List Char)) (readValue : Reader Value) :
    Reader ((List String × String) × Value) := fun cs => do
  let (key, rest) ← readKey cs
  match ← skip rest with
  | '=' :: rest =>
    let (value, rest) ← readValue (← skip rest)
    return ((key, value), rest)
  | _ => none

/-- The members of a table in braces. Its pairs are assignments, and may have dotted keys. -/
def membersOf? (pairs : List ((List String × String) × Value)) : Option Members :=
  pairs.foldlM (fun members ((path, key), value) => members.assign? path key value) []

/-- A value without brackets: quoted text or a scalar. Its first character tells which. -/
def readPlain : Reader Value
  | '"' :: cs => (readQuoted ('"' :: cs)).map fun (text, rest) => (.text (String.ofList text), rest)
  | '\'' :: cs => (readQuoted ('\'' :: cs)).map fun (text, rest) => (.text (String.ofList text), rest)
  | cs => readScalar cs

/-- A value whose brackets nest at most `levels` deep. -/
def readValue : (levels : Nat) → Reader Value
  | 0, cs => readPlain cs
  | levels + 1, '[' :: cs =>
    (readItems ']' (fun cs => readValue levels cs) (cs.length + 1) cs).map fun (items, rest) =>
      (.array .closed items, rest)
  | levels + 1, '\x7b' :: cs => do
    let readMember := readPair (skipGap false) fun cs => readValue levels cs
    let (pairs, rest) ← readItems '\x7d' readMember (cs.length + 1) cs
    return (.table .closed (← membersOf? pairs), rest)
  -- A bracket that nests too deep is no scalar either, so it is refused here.
  | _, cs => readPlain cs

/-! ## Documents -/

/-- A statement. Two brackets in front make a header of an array, one a header of a table. -/
def readStatement : Reader Statement
  | '[' :: '[' :: cs => do
    match ← readKey cs with
    | ((path, key), ']' :: ']' :: rest) => return (.arrayHeader path key, rest)
    | _ => none
  | '[' :: cs => do
    match ← readKey cs with
    | ((path, key), ']' :: rest) => return (.header path key, rest)
    | _ => none
  | cs => do
    let (((path, key), value), rest) ← readPair (fun cs => some (skipBlanks cs)) (readValue maxLevels) cs
    return (.assignment path key value, rest)

/-- The statements of a text, each on a line of its own; `rounds` bounds their
number. -/
def statements? : (rounds : Nat) → List Char → Option (List Statement)
  | 0, _ => none
  | rounds + 1, cs => do
    match ← skipGap false cs with
    | [] => return []
    | cs =>
      let (statement, rest) ← readStatement cs
      return statement :: (← statements? rounds (← endLine? false rest))

/-- The text without a byte order mark in front. Anywhere else it is a character. -/
def dropMark : List Char → List Char
  | '\ufeff' :: cs => cs
  | cs => cs

/-- The table that a document defines, `none` if it is not well formed. The number of rounds is
never used up: every statement takes a character. -/
def parse? (text : String) : Option Members := do
  let cs := dropMark text.toList
  Members.ofStatements? (← statements? (cs.length + 1) cs)

end CommandCompletion.Toml
