/-
What words stand for.

The parts of a word are replaced, which gives characters with marks: whether they
were quoted, and whether they came from elsewhere. The characters are then cut
into fields where that is allowed, and fields that are patterns give way to the
names of files.
-/
import CommandCompletion.Script.Arithmetic
import CommandCompletion.Script.Pattern
import CommandCompletion.Script.Process
import CommandCompletion.Text.Decimal

set_option autoImplicit false

namespace CommandCompletion.Script

/-- A piece of a word in which everything was replaced. -/
inductive Atom where
  /-- A character. One that was not quoted and came from elsewhere may be cut at. -/
  | sign (c : Char) (quoted : Bool) (cuts : Bool)
  /-- Quotes: they make a field, even of nothing. -/
  | quotes
  /-- One field ends and another begins. -/
  | gap
deriving DecidableEq, Repr, Inhabited

namespace Atom

/-- The atoms of a text that was put in. -/
def ofText (quoted : Bool) (text : String) : List Atom :=
  (if quoted then [quotes] else []) ++ text.toList.map fun c => sign c quoted (!quoted)

/-- The atoms of several texts that are fields of their own. -/
def ofTexts (quoted : Bool) (texts : List String) : List Atom :=
  (texts.map (ofText quoted)).intersperse [gap] |>.flatten

/-- The pattern that atoms write, where nothing is cut. -/
def pattern (atoms : List Atom) : Pattern :=
  atoms.filterMap fun atom =>
    match atom with
    | sign c quoted _ => some ⟨c, quoted⟩
    | quotes => none
    | gap => some ⟨' ', true⟩

/-- The text of atoms, where nothing is cut. -/
def text (atoms : List Atom) : String := Pattern.text (pattern atoms)

/-! ## Cutting -/

/-- Fields in progress: complete ones and the one begun, the last first. -/
structure Fields where
  done : List Pattern := []
  current : Option Pattern := none
  /-- The last field was ended by a blank; a separator that follows ends no other. -/
  blank : Bool := false

/-- Ends the field in progress. -/
def Fields.close (fields : Fields) : Fields :=
  match fields.current with
  | some signs => { fields with done := signs.reverse :: fields.done, current := none }
  | none => fields

/-- Goes on with an atom. `separators` are the characters to cut at. -/
def Fields.add (separators : List Char) (fields : Fields) : Atom → Fields
  | quotes => { fields with current := some (fields.current.getD []), blank := false }
  | gap => { fields.close with blank := false }
  | sign c quoted cuts =>
    if cuts && separators.contains c then
      -- Blanks next to each other end one field, while other separators end one each.
      if c = ' ' || c = '\t' || c = '\n' then
        if fields.current.isSome then { fields.close with blank := true } else fields
      else if fields.current.isSome then { fields.close with blank := false }
      else if fields.blank then { fields with blank := false }
      else { fields with done := [] :: fields.done }
    else { fields with current := some (⟨c, quoted⟩ :: fields.current.getD []), blank := false }

/-- The fields that atoms make. -/
def fields (separators : List Char) (atoms : List Atom) : List Pattern :=
  ((atoms.foldl (Fields.add separators) {}).close).done.reverse

end Atom

/-! ## Replacing -/

namespace Act

/-- The characters at which fields are cut. -/
def separators : Act (List Char) := do
  match ← parameter? "IFS" with
  | some ⟨some text, _, _⟩ => return text.toList
  | _ => return [' ', '\t', '\n']

/-- The arguments as one text. -/
def joinedArguments : Act String := do
  let first := match ← separators with
    | c :: _ => String.singleton c
    | [] => ""
  return String.intercalate first (← get).arguments

/-- The text that a name stands for, `none` if it has no value. -/
def textOfName (name : String) : Act (Option String) := do
  let process ← get
  match name with
  | "?" => return some (toString process.status)
  | "$" => return some (toString process.number)
  | "#" => return some (toString process.arguments.length)
  | "-" => return some (String.ofList process.options)
  | "0" => return some process.name
  | "!" => return (process.jobs.head?).map fun job => toString job.number
  | "@" | "*" => if process.arguments.isEmpty then return none else return some (← joinedArguments)
  | name =>
    if name.toList.all Char.isDigit then
      return process.arguments[Text.digitsValue name.toList - 1]?
    else valueOf name

/-- The atoms of what a name stands for. -/
def atomsOfName (quoted : Bool) (name : String) : Act (List Atom) := do
  match name with
  | "@" => return Atom.ofTexts quoted (← get).arguments
  | "*" =>
    if quoted then return Atom.ofText true (← joinedArguments)
    else return Atom.ofTexts false (← get).arguments
  | name => return Atom.ofText quoted ((← textOfName name).getD "")

/-- The value that arithmetic finds in a parameter. -/
def numberIn (process : Process) (name : String) : Except Arithmetic.Trouble Int :=
  match (process.parameters.lookup name).bind Parameter.value with
  | none => .ok 0
  | some value =>
    -- A parameter without a value counts as zero, and so does one of blanks.
    if value.toList.all fun c => c == ' ' || c == '\t' || c == '\n' then .ok 0
    else
      match Arithmetic.number? value with
      | some n => .ok n
      | none => .error (.noNumber value)

/-- The value of an arithmetic expression. -/
def calculate (expression : String) : Act Int := do
  match Arithmetic.evaluate (numberIn (← get)) expression with
  | .ok (value, assigned) =>
    for (name, value) in assigned do assign name (toString value)
    return value
  | .error (.wrong text) => refuse s!"arithmetic expression: {text}: \"{expression}\""
  | .error (.noNumber value) => refuse s!"Illegal number: {value}"
  | .error (.unset name) => refuse s!"{name}: parameter not set"
  | .error (.fixed name) => refuse s!"{name}: is read only"

/-- What a command writes, without line ends at its end. -/
def output (run : Run) (command : Command) : Act String := do
  let number ← newNumber
  let (stop, status, clock) ← inside do
    modify fun process => { process with guarded := false, takenStatus := none }
    lead 1 (some (.buffer number))
    run command
  -- Nobody sees what such a command has written so far.
  if isEndless stop then Act.stop .endless
  reportEnding stop
  modify fun process => { process with clock := clock, takenStatus := some status }
  let text := (← get).machine.textOf number
  change (Machine.dropBuffer number)
  -- A parameter can hold any character but this one.
  let cs := text.toList.filter (· != '\x00')
  return String.ofList (cs.reverse.dropWhile (· == '\n')).reverse

/-- The value of a name that has one, an empty one not counting if `emptyToo` says
so. -/
def present? (emptyToo : Bool) (name : String) : Act (Option String) := do
  match ← textOfName name with
  | some text => return if emptyToo && text.isEmpty then none else some text
  | none => return none

/-- The atoms of a word that stands in braces. -/
def fromWord (quoted : Bool) (atoms : List Atom) : List Atom :=
  if quoted then .quotes :: atoms
  else atoms.map fun atom =>
    match atom with
    | .sign c false _ => .sign c false true
    | atom => atom

mutual

/-- What a part of a word stands for. -/
def partAtoms (run : Run) : Part → Act (List Atom)
  | .char quoted c => return [.sign c quoted false]
  | .quotes => return [.quotes]
  | .malformed => refuse "Bad substitution"
  | .output quoted command => return Atom.ofText quoted (← output run command)
  | .arithmetic quoted expression => do
    let value ← calculate (Atom.text (← wordAtoms run expression))
    return Atom.ofText quoted (toString value)
  | .parameter quoted name change => changedAtoms run quoted name change

/-- What the parts of a word stand for. -/
def wordAtoms (run : Run) : List Part → Act (List Atom)
  | [] => return []
  | part :: parts => do
    let first ← partAtoms run part
    return first ++ (← wordAtoms run parts)

/-- What is made of the value of a name. -/
def changedAtoms (run : Run) (quoted : Bool) (name : String) : Change → Act (List Atom)
  | .none => do
    if (← get).options.contains 'u' && name != "@" && name != "*" && (← textOfName name).isNone then
      refuse s!"{name}: parameter not set"
    atomsOfName quoted name
  | .fallback emptyToo word => do
    if (← present? emptyToo name).isSome then atomsOfName quoted name
    else return fromWord quoted (← wordAtoms run word)
  | .replace emptyToo word => do
    if (← present? emptyToo name).isSome then return fromWord quoted (← wordAtoms run word)
    else return if quoted then [.quotes] else []
  | .assign emptyToo word => do
    if (← present? emptyToo name).isSome then atomsOfName quoted name
    else
      let text := Atom.text (← wordAtoms run word)
      unless isName name do refuse s!"{name}: bad variable name"
      assign name text
      return Atom.ofText quoted text
  | .insist emptyToo word => do
    if (← present? emptyToo name).isSome then atomsOfName quoted name
    else
      let text := Atom.text (← wordAtoms run word)
      let text := if word.isEmpty then
          if emptyToo then "parameter not set or null" else "parameter not set"
        else text
      refuse s!"{name}: {text}"
  | .length => do
    if (← get).options.contains 'u' && (← textOfName name).isNone then
      refuse s!"{name}: parameter not set"
    let length := ((← textOfName name).getD "").length
    return Atom.ofText quoted (toString length)
  | .cutFront longest word => do
    let pattern := Atom.pattern (← wordAtoms run word)
    if (← get).options.contains 'u' && (← textOfName name).isNone then
      refuse s!"{name}: parameter not set"
    return Atom.ofText quoted (Pattern.cutFront longest pattern ((← textOfName name).getD ""))
  | .cutBack longest word => do
    let pattern := Atom.pattern (← wordAtoms run word)
    if (← get).options.contains 'u' && (← textOfName name).isNone then
      refuse s!"{name}: parameter not set"
    return Atom.ofText quoted (Pattern.cutBack longest pattern ((← textOfName name).getD ""))

end

/-! ## Home directories -/

/-- The home directory that a tilde with a name stands for. -/
def homeOf? (name : String) : Act (Option String) := do
  match name with
  | "" => valueOf "HOME"
  | "root" => return some "/root"
  | _ => return none

/-- The word with the tilde in front of it replaced, if `here` says that one may
stand here. In values a tilde may follow each colon. -/
def replaceTildes (inValue : Bool) : (here : Bool) → Word → Act Word
  | _, [] => return []
  | here, part :: parts => do
    match part with
    | .char false '~' =>
      let name := parts.takeWhile fun part =>
        match part with
        | .char false c => c != '/' && !(inValue && c == ':')
        | _ => false
      -- A name with something quoted behind it is no user's name.
      let ended := match (parts.drop name.length).head? with
        | none | some (.char false _) => true
        | _ => false
      let rest ← replaceTildes inValue false parts
      if here && ended then
        match ← homeOf? ((Word.bare? name).getD "") with
        | some home =>
          let behind := rest.drop name.length
          return (if home.isEmpty then [.quotes] else home.toList.map (.char true)) ++ behind
        | none => return part :: rest
      else return part :: rest
    | .char false ':' => return part :: (← replaceTildes inValue inValue parts)
    | part => return part :: (← replaceTildes inValue false parts)

/-! ## Words -/

/-- The text of a word that is not cut. -/
def textOf (run : Run) (word : Word) (inValue : Bool := false) : Act String := do
  return Atom.text (← wordAtoms run (← replaceTildes inValue true word))

/-- The pattern of a word that is not cut. -/
def patternOf (run : Run) (word : Word) : Act Pattern := do
  return Atom.pattern (← wordAtoms run (← replaceTildes false true word))

/-- The fields that a word stands for. -/
def fieldsOf (run : Run) (word : Word) : Act (List String) := do
  let atoms ← wordAtoms run (← replaceTildes false true word)
  let fields := Atom.fields (← separators) atoms
  if (← get).options.contains 'f' then return fields.map Pattern.text
  let files ← files
  -- The two names that lead upwards are entries too, and hidden like others with a dot.
  let namesIn (base : String) : Option (List String) :=
    match files.list (decode (if base.isEmpty then "." else base)) with
    | .ok entries => some ("." :: ".." :: entries.map fun entry => encode entry.1)
    | .error _ => none
  return fields.flatMap (Pattern.paths namesIn fun path => files.contains (decode path))

/-- The fields that several words stand for. -/
def allFieldsOf (run : Run) (words : List Word) : Act (List String) := do
  return (← words.mapM (fieldsOf run)).flatten

end Act

end CommandCompletion.Script
