/-
JSON values, kept as they are written.

A value here loses nothing that a reader of documents may ask about: numbers
keep their digits, members of an object keep their order and may repeat, and a
string whose escapes name half a surrogate pair is kept as a string that has no
text. So "what is written" is settled once, and "what it means" is left to
whoever decodes the value.
-/

set_option autoImplicit false

namespace CommandCompletion.Json

/-- A JSON value as written. Two texts that differ in blanks, or in how a character is escaped,
write the same value. -/
inductive Value where
  | null
  | bool (value : Bool)
  /-- The digits as written, sign and exponent included. -/
  | number (literal : String)
  /-- `none` if an escape stands for half a surrogate pair. -/
  | string (text : Option String)
  | array (items : List Value)
  /-- Members in the order written, names that repeat included. -/
  | object (members : List (Option String × Value))
deriving Repr, Inhabited

namespace Value

/-- A string with this text. -/
def ofString (text : String) : Value := string (some text)

/-- A number with these digits, and without a sign or an exponent. -/
def ofNat (n : Nat) : Value := number (toString n)

/-- An integer, with a sign if it is negative. -/
def ofInt (n : Int) : Value := number (toString n)

/-- An object with these members, in this order. Names may repeat here too. -/
def ofMembers (members : List (String × Value)) : Value :=
  object (members.map fun (name, value) => (some name, value))

/-- A value, or `null` for none. -/
def ofOption {α : Type} (f : α → Value) : Option α → Value
  | some a => f a
  | none => null

/-! ## Looking into a value -/

/-- The last member of this name, for an object. Records are decoded otherwise, and refuse names
that repeat. -/
def member? (name : String) : Value → Option Value
  | object members => (members.reverse.find? fun (key, _) => key == some name).map (·.2)
  | _ => none

/-- The text of a string, if it has one. -/
def text? : Value → Option String
  | string text => text
  | _ => none

/-- The value of a literal. -/
def bool? : Value → Option Bool
  | bool value => some value
  | _ => none

/-- The items of an array. -/
def items? : Value → Option (List Value)
  | array items => some items
  | _ => none

/-- The members of an object whose names have a text. -/
def members? : Value → Option (List (String × Value))
  | object members => some (members.filterMap fun (key, value) => key.map fun name => (name, value))
  | _ => none

/-- The number, if it is written as digits alone: no sign, no point and no exponent. -/
def nat? : Value → Option Nat
  | number literal => literal.toNat?
  | _ => none

end Value

end CommandCompletion.Json
