/-
Regular expressions of the POSIX utilities, basic and extended.

A match is searched from left to right, and of those that begin first the longest
counts. All ways of matching are followed at once: from a set of places in the
text to the places behind the expression.
-/
import CommandCompletion.Script.Pattern
import CommandCompletion.Text.Decimal

set_option autoImplicit false

namespace CommandCompletion.Script

/-- A regular expression. -/
inductive Regex where
  | empty
  /-- A character of a class. -/
  | one (member : Char → Bool)
  /-- The beginning of the text, its end. -/
  | start
  | stop
  /-- The beginning of a word, its end, either of them, neither. -/
  | wordStart
  | wordStop
  | wordEdge
  | noWordEdge
  /-- No character of words stands before, or behind. -/
  | noWordBefore
  | noWordBehind
  | sequence (first second : Regex)
  | choice (first second : Regex)
  /-- So many times at least, and at most. -/
  | many (body : Regex) (least : Nat) (most : Option Nat)
  /-- Remembers what it matches under a number. -/
  | group (number : Nat) (body : Regex)
  /-- What a group has matched, again. -/
  | again (number : Nat)

instance : Inhabited Regex := ⟨.empty⟩

namespace Regex

/-! ## Matching -/

/-- A place in the text, and what the groups have matched: where from, where to. -/
structure Place where
  position : Nat
  groups : List (Nat × Nat × Nat) := []
deriving DecidableEq, Repr, Inhabited

/-- A character of words. -/
def isWordChar (c : Char) : Bool := c.isAlphanum || c == '_'

/-- A word character stands before a position, and at it. -/
def wordAround (text : Array Char) (position : Nat) : Bool × Bool :=
  (0 < position && (text[position - 1]?).any isWordChar, (text[position]?).any isWordChar)

/-- Without places that another place stands for. -/
def distinct (places : List Place) : List Place :=
  (places.foldl
    (fun kept place => if kept.any (·.position == place.position) then kept else place :: kept)
    []).reverse

/-- The places behind repetitions of a step, those behind more of them first.
`count` repetitions were made. -/
def repeated (step : Place → List Place) (least : Nat) (most : Option Nat) :
    (rounds : Nat) → (count : Nat) → List Place → List Place
  | 0, _, _ => []
  | rounds + 1, count, places =>
    let here := if least ≤ count then places else []
    if places.isEmpty || most.any (· ≤ count) then here
    else
      let next := distinct (places.flatMap step)
      -- Repeating nothing leads nowhere new.
      let next := if least ≤ count then
          next.filter fun place => !places.any (·.position == place.position)
        else next
      repeated step least most rounds (count + 1) next ++ here

/-- The places behind the expression, from a place in the text. -/
def places (fold : Char → Char) (text : Array Char) : Regex → Place → List Place
  | empty, place => [place]
  | one member, place =>
    match text[place.position]? with
    | some c =>
      if member c || member (fold c) || member c.toUpper && fold 'A' == 'a' then
        [{ place with position := place.position + 1 }]
      else []
    | none => []
  | start, place => if place.position = 0 then [place] else []
  | stop, place => if place.position = text.size then [place] else []
  | wordStart, place => if wordAround text place.position = (false, true) then [place] else []
  | wordStop, place => if wordAround text place.position = (true, false) then [place] else []
  | wordEdge, place =>
    let (before, behind) := wordAround text place.position
    if before != behind then [place] else []
  | noWordEdge, place =>
    let (before, behind) := wordAround text place.position
    if before == behind then [place] else []
  | noWordBefore, place => if (wordAround text place.position).1 then [] else [place]
  | noWordBehind, place => if (wordAround text place.position).2 then [] else [place]
  | sequence first second, place =>
    distinct ((places fold text first place).flatMap fun place => places fold text second place)
  | choice first second, place =>
    distinct (places fold text first place ++ places fold text second place)
  | many body least most, place =>
    distinct (repeated (fun place => places fold text body place) least most
      (text.size + least + 2) 0 [place])
  | group number body, place =>
    (places fold text body place).map fun behind =>
      { behind with groups := (number, place.position, behind.position) :: behind.groups }
  | again number, place =>
    match place.groups.lookup number with
    | some (first, last) =>
      let size := last - first
      if (text.extract first last).map fold = (text.extract place.position (place.position + size)).map fold
      then [{ place with position := place.position + size }]
      else []
    | none => []

/-- A match: where it begins and ends, and what the groups have matched. -/
structure Match where
  first : Nat
  last : Nat
  groups : List (Nat × Nat × Nat) := []
deriving Repr, Inhabited

/-- The longest match that begins at a position. -/
def matchAt? (ignoreCase : Bool) (regex : Regex) (text : Array Char) (position : Nat) : Option Match :=
  let fold := if ignoreCase then Char.toLower else id
  let longest := (places fold text regex ⟨position, []⟩).foldl
    (fun best place =>
      match best with
      | none => some place
      | some other => if other.position < place.position then some place else best) none
  longest.map fun (place : Place) => ⟨position, place.position, place.groups⟩

/-- The first match at or behind a position. -/
def find? (ignoreCase : Bool) (regex : Regex) (text : Array Char) (position : Nat) : Option Match :=
  (List.range' position (text.size + 1 - position)).findSome? fun position =>
    matchAt? ignoreCase regex text position

/-! ## Reading -/

/-- What is wrong with an expression. -/
inductive Trouble where
  | openBracket
  | openGroup
  | closedGroup
  | openBraces
  | badRange
  | trailingBackslash
  | badReference
deriving DecidableEq, Repr

/-- An expression in the course of reading: what follows, and how many groups
were opened. -/
structure Source where
  rest : List Char
  groups : Nat := 0

/-- Reads a part of an expression. -/
abbrev Parse (α : Type) := StateT Source (Except Trouble) α

/-- Goes on behind some characters. -/
def goOn (rest : List Char) : Parse Unit := modify fun source => { source with rest := rest }

/-- How often a sign in the text says that what stands before it is repeated, and
what follows the sign. -/
def repetition? (extended : Bool) (cs : List Char) : Option (Nat × Option Nat × List Char) :=
  let bounds (cs : List Char) (close : List Char) : Option (Nat × Option Nat × List Char) :=
    let first := cs.takeWhile Char.isDigit
    let rest := cs.drop first.length
    match rest with
    | ',' :: rest =>
      let last := rest.takeWhile Char.isDigit
      let rest := rest.drop last.length
      if close.isPrefixOf rest then
        some (Text.digitsValue first, if last.isEmpty then none else some (Text.digitsValue last),
          rest.drop close.length)
      else none
    | rest =>
      if close.isPrefixOf rest && !first.isEmpty then
        some (Text.digitsValue first, some (Text.digitsValue first), rest.drop close.length)
      else none
  match cs with
  | '*' :: cs => some (0, none, cs)
  | '+' :: cs => if extended then some (1, none, cs) else none
  | '?' :: cs => if extended then some (0, some 1, cs) else none
  | '\x7b' :: cs => if extended then bounds cs ['\x7d'] else none
  | '\\' :: '+' :: cs => if extended then none else some (1, none, cs)
  | '\\' :: '?' :: cs => if extended then none else some (0, some 1, cs)
  | '\\' :: '\x7b' :: cs => if extended then none else bounds cs ['\\', '\x7d']
  | _ => none

/-- A set in brackets, behind the opening one. -/
def readSet (cs : List Char) : Parse Regex := do
  let (negated, cs) := match cs with
    | '^' :: cs => (true, cs)
    | cs => (false, cs)
  match Pattern.set? (cs.length + 1) true (cs.map fun c => ⟨c, false⟩) with
  | some (member, rest) =>
    goOn (rest.map Sign.char)
    return .one fun c => member c != negated
  | none => throw .openBracket

/-- The expression that a letter behind a backslash stands for. -/
def escape? : Char → Option Regex
  | 'w' => some (.one isWordChar)
  | 'W' => some (.one fun c => !isWordChar c)
  | 's' => some (.one Pattern.isBlank)
  | 'S' => some (.one fun c => !Pattern.isBlank c)
  | '<' => some .wordStart
  | '>' => some .wordStop
  | 'b' => some .wordEdge
  | 'B' => some .noWordEdge
  | 'n' => some (.one (· == '\n'))
  | 't' => some (.one (· == '\t'))
  | _ => none

/-- A group is opened here, or closed, or an alternative begins. -/
def isMark (extended : Bool) (mark : Char) (cs : List Char) : Bool :=
  if extended then cs.head? == some mark else cs.take 2 == ['\\', mark]

/-- What follows such a mark. -/
def behindMark (extended : Bool) (cs : List Char) : List Char := cs.drop (if extended then 1 else 2)

mutual

/-- Alternatives. -/
def readChoice (extended : Bool) : (fuel : Nat) → (depth : Nat) → Parse Regex
  | 0, _ => throw .openGroup
  | fuel + 1, depth => do
    let first ← readSequence extended fuel depth true .empty
    let cs := (← get).rest
    if isMark extended '|' cs then
      goOn (behindMark extended cs)
      return .choice first (← readChoice extended fuel depth)
    else return first

/-- Expressions one behind the other. `atStart` says that none was read yet, and
`before` is what was read so far. -/
def readSequence (extended : Bool) :
    (fuel : Nat) → (depth : Nat) → (atStart : Bool) → (before : Regex) → Parse Regex
  | 0, _, _, _ => throw .openGroup
  | fuel + 1, depth, atStart, before => do
    let cs := (← get).rest
    if cs.isEmpty || isMark extended '|' cs || (isMark extended ')' cs && (0 < depth || !extended)) then
      if isMark extended ')' cs && depth = 0 then throw .closedGroup
      return before
    else
      let item ← readItem extended fuel depth atStart
      let item ← readRepetitions extended fuel item
      readSequence extended fuel depth false (.sequence before item)

/-- The signs of repetition behind an expression. -/
def readRepetitions (extended : Bool) : (fuel : Nat) → (item : Regex) → Parse Regex
  | 0, item => return item
  | fuel + 1, item => do
    let cs := (← get).rest
    match repetition? extended cs with
    | some (least, most, rest) =>
      if most.any (· < least) then throw .badRange
      goOn rest
      readRepetitions extended fuel (.many item least most)
    | none =>
      if !extended && cs.take 2 == ['\\', '\x7b'] then throw .openBraces
      return item

/-- An expression without repetitions. -/
def readItem (extended : Bool) : (fuel : Nat) → (depth : Nat) → (atStart : Bool) → Parse Regex
  | 0, _, _ => throw .openGroup
  | fuel + 1, depth, atStart => do
    let cs := (← get).rest
    if isMark extended '(' cs then
      let number := (← get).groups + 1
      set { (← get) with rest := behindMark extended cs, groups := number }
      let body ← readChoice extended fuel (depth + 1)
      let cs := (← get).rest
      unless isMark extended ')' cs do throw .openGroup
      goOn (behindMark extended cs)
      return .group number body
    else
      match cs with
      | [] => return .empty
      | '[' :: cs => readSet cs
      | '.' :: cs => goOn cs; return .one fun _ => true
      | '^' :: cs =>
        goOn cs
        return if extended || atStart then .start else .one (· == '^')
      | '$' :: cs =>
        goOn cs
        let atStop := cs.isEmpty || isMark false ')' cs || isMark false '|' cs
        return if extended || atStop then .stop else .one (· == '$')
      | ['\\'] => throw .trailingBackslash
      | '\\' :: c :: cs =>
        goOn cs
        if '1' ≤ c && c ≤ '9' then
          let number := c.toNat - '0'.toNat
          if (← get).groups < number then throw .badReference
          return .again number
        else return (escape? c).getD (.one (· == c))
      | c :: cs => goOn cs; return .one (· == c)

end

/-- The expression that a text writes. -/
def ofText (extended : Bool) (text : String) : Except Trouble Regex :=
  match (readChoice extended (6 * text.length + 16) 0).run { rest := text.toList } with
  | .ok (regex, _) => .ok regex
  | .error trouble => .error trouble

/-- The expression that matches just a text. -/
def ofFixed (text : String) : Regex :=
  text.toList.foldr (fun c regex => .sequence (.one (· == c)) regex) .empty

/-- The wording of what is wrong. -/
def Trouble.message : Trouble → String
  | .openBracket => "Unmatched [, [^, [:, [., or [="
  | .openGroup => "Unmatched ( or \\("
  | .closedGroup => "Unmatched ) or \\)"
  | .openBraces => "Unmatched \\\x7b"
  | .badRange => "Invalid content of \\\x7b\\\x7d"
  | .trailingBackslash => "Trailing backslash"
  | .badReference => "Invalid back reference"

end Regex

end CommandCompletion.Script
