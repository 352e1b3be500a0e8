/-
Patterns of file names.

A star stands for any characters, a question mark for one, and brackets for one
of a set. What was quoted stands for itself.
-/

set_option autoImplicit false

namespace CommandCompletion.Script

/-- A character of a word, and whether it was quoted. -/
structure Sign where
  char : Char
  quoted : Bool := false
deriving DecidableEq, Repr, Inhabited

/-- Characters with special ones among them. -/
abbrev Pattern := List Sign

namespace Pattern

/-- The text without regard to quotes. -/
def text (pattern : Pattern) : String := String.ofList (pattern.map Sign.char)

/-- The pattern that a text writes; a backslash quotes what follows it. -/
def unescape : List Char → Pattern
  | '\\' :: c :: cs => ⟨c, true⟩ :: unescape cs
  | c :: cs => ⟨c, false⟩ :: unescape cs
  | [] => []

/-- A space or a character that moves the place of writing. -/
def isBlank (c : Char) : Bool := c == ' ' || (9 ≤ c.toNat && c.toNat ≤ 13)

/-- The classes that have names. -/
def class? : String → Option (Char → Bool)
  | "alpha" => some Char.isAlpha
  | "digit" => some Char.isDigit
  | "alnum" => some Char.isAlphanum
  | "upper" => some Char.isUpper
  | "lower" => some Char.isLower
  | "space" => some isBlank
  | "blank" => some fun c => c == ' ' || c == '\t'
  | "punct" => some fun c => 33 ≤ c.toNat && c.toNat ≤ 126 && !c.isAlphanum
  | "print" => some fun c => 32 ≤ c.toNat && c.toNat ≤ 126
  | "graph" => some fun c => 33 ≤ c.toNat && c.toNat ≤ 126
  | "cntrl" => some fun c => c.toNat < 32 || c.toNat == 127
  | "xdigit" => some fun c => c.isDigit || ('a' ≤ c && c ≤ 'f') || ('A' ≤ c && c ≤ 'F')
  | _ => none

/-- The name of a class and what follows it, behind an opening bracket and a
colon. -/
def className? (pattern : Pattern) : Option (String × Pattern) :=
  let name := pattern.takeWhile fun sign => sign.char.isLower
  match pattern.drop name.length with
  | ⟨':', _⟩ :: ⟨']', _⟩ :: rest => some (text name, rest)
  | _ => none

/-- The set between brackets, behind the opening one, and what follows it. A
closing bracket that comes `first` belongs to the set. `none` if the brackets are
not closed; `rounds` bounds the number of items. -/
def set? : (rounds : Nat) → (first : Bool) → Pattern → Option ((Char → Bool) × Pattern)
  | 0, _, _ => none
  | _, _, [] => none
  | rounds + 1, first, sign :: rest =>
    if sign.char = ']' && !sign.quoted && !first then some (fun _ => false, rest)
    else
      let one (member : Char → Bool) (rest : Pattern) : Option ((Char → Bool) × Pattern) :=
        (set? rounds false rest).map fun (others, rest) => (fun c => member c || others c, rest)
      let plain : Option ((Char → Bool) × Pattern) :=
        match rest with
        | ⟨'-', _⟩ :: last :: rest' =>
          if last.char = ']' && !last.quoted then one (· == sign.char) rest
          else one (fun c => sign.char ≤ c && c ≤ last.char) rest'
        | rest => one (· == sign.char) rest
      if sign.char = '[' && !sign.quoted then
        match rest with
        | ⟨':', _⟩ :: rest' =>
          match className? rest' with
          | some (name, rest) => one ((class? name).getD fun _ => false) rest
          | none => plain
        | _ => plain
      else plain

/-- The set that brackets begin, behind the opening one. -/
def brackets? (pattern : Pattern) : Option ((Char → Bool) × Pattern) :=
  match pattern with
  | sign :: rest =>
    if (sign.char = '!' || sign.char = '^') && !sign.quoted then
      (set? (rest.length + 1) true rest).map fun (member, rest) => (fun c => !member c, rest)
    else set? (pattern.length + 1) true pattern
  | [] => none

/-- Whether a pattern matches all of a text. `rounds` bounds the number of steps,
each of which takes a sign of the pattern or a character. -/
def matchesIn : (rounds : Nat) → Pattern → List Char → Bool
  | 0, _, _ => false
  | _, [], cs => cs.isEmpty
  | rounds + 1, sign :: pattern, cs =>
    let literal :=
      match cs with
      | c :: cs => c == sign.char && matchesIn rounds pattern cs
      | [] => false
    if sign.quoted then literal
    else if sign.char = '*' then
      matchesIn rounds pattern cs ||
        match cs with
        | _ :: cs => matchesIn rounds (sign :: pattern) cs
        | [] => false
    else if sign.char = '?' then
      match cs with
      | _ :: cs => matchesIn rounds pattern cs
      | [] => false
    else if sign.char = '[' then
      match brackets? pattern with
      | some (member, pattern) =>
        match cs with
        | c :: cs => member c && matchesIn rounds pattern cs
        | [] => false
      | none => literal
    else literal

/-- Whether a pattern matches all of a text. -/
def matchesText (pattern : Pattern) (text : String) : Bool :=
  matchesIn (pattern.length + text.length + 1) pattern text.toList

/-- Has a special character. -/
def isSpecial (pattern : Pattern) : Bool :=
  pattern.any fun sign => !sign.quoted && (sign.char == '*' || sign.char == '?' || sign.char == '[')

/-- The ways of cutting a text in two, the shortest first part first. -/
def cuts (text : String) : List (String × String) :=
  let cs := text.toList
  (List.range (cs.length + 1)).map fun n => (String.ofList (cs.take n), String.ofList (cs.drop n))

/-- The text without what the pattern matches at its front. -/
def cutFront (longest : Bool) (pattern : Pattern) (text : String) : String :=
  let ways := if longest then (cuts text).reverse else cuts text
  match ways.find? fun (front, _) => pattern.matchesText front with
  | some (_, rest) => rest
  | none => text

/-- The text without what the pattern matches at its back. -/
def cutBack (longest : Bool) (pattern : Pattern) (text : String) : String :=
  let ways := if longest then cuts text else (cuts text).reverse
  match ways.find? fun (_, back) => pattern.matchesText back with
  | some (rest, _) => rest
  | none => text

/-! ## File names -/

/-- The patterns between the slashes. -/
def components (pattern : Pattern) : List Pattern :=
  pattern.foldr
    (fun sign parts =>
      if sign.char = '/' then [] :: parts
      else match parts with
        | part :: parts => (sign :: part) :: parts
        | [] => [[sign]])
    [[]]

/-- The names that a pattern matches. A dot in front must be asked for. -/
def select (pattern : Pattern) (names : List String) : List String :=
  let hidden := match pattern with
    | sign :: _ => sign.char == '.'
    | [] => false
  (names.filter fun name => (hidden || !name.startsWith ".") && pattern.matchesText name).mergeSort
    fun a b => decide (a ≤ b)

/-- The paths that the components lead to from `base`. `namesIn` lists a
directory, `none` if it is none; `contains` tells whether a path names anything. -/
def follow (namesIn : String → Option (List String)) (contains : String → Bool) :
    (base : String) → List Pattern → List String
  | base, [] => [base]
  | base, [last] =>
    if last.isEmpty then (if (namesIn base).isSome then [base] else [])
    else if isSpecial last then
      (select last ((namesIn base).getD [])).map (base ++ ·)
    else if contains (base ++ text last) then [base ++ text last] else []
  | base, part :: parts =>
    if isSpecial part then
      (select part ((namesIn base).getD [])).flatMap fun name =>
        if (namesIn (base ++ name)).isSome then follow namesIn contains (base ++ name ++ "/") parts
        else []
    else follow namesIn contains (base ++ text part ++ "/") parts

/-- The paths that a pattern matches, in order; the pattern itself if it is no
pattern or matches nothing. -/
def paths (namesIn : String → Option (List String)) (contains : String → Bool) (pattern : Pattern) :
    List String :=
  if isSpecial pattern then
    match follow namesIn contains "" (components pattern) with
    | [] => [text pattern]
    | found => found
  else [text pattern]

end Pattern

end CommandCompletion.Script
