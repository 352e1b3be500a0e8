/-
Decoding TOML values into records.

A record is written as a table, whose members that the record does not declare
are passed over, or as a list that holds the fields in the order of their
declaration; what follows the last field in a list is not looked at. A value
that is passed over must still be within the range of numbers. A date counts as
a table with one undeclared member.
-/
import CommandCompletion.Text.Decimal
import CommandCompletion.Toml.Value

set_option autoImplicit false

namespace CommandCompletion.Toml

mutual

/-- Every integer has at most 128 bits and every float fits a double, however deep they are. -/
def Value.isSound : Value → Bool
  | .integer n => decide (-(Int.pow 2 127) ≤ n) && decide (n < Int.pow 2 128)
  | .float literal => Text.fitsDouble literal.toList
  | .array _ items => soundItems items
  | .table _ members => soundMembers members
  | .text _ | .bool _ | .datetime _ => true

/-- Every item is sound. -/
def soundItems : List Value → Bool
  | [] => true
  | value :: values => value.isSound && soundItems values

/-- The value of every member is sound. -/
def soundMembers : List (String × Value) → Bool
  | [] => true
  | (_, value) :: members => value.isSound && soundMembers members

end

/-- The fields found for a record, by name. -/
abbrev Fields := String → Option Value

/-- The fields of a record whose declared names are `names`, in order. What is declared is looked at
by its decoder, so only the others are checked here. -/
def fields? (names : List String) : Value → Option Fields
  | .table _ members =>
    if members.all fun (name, value) => names.contains name || value.isSound then
      some fun name => members.lookup name
    else none
  | .array _ items => some fun name => (names.zip items).lookup name
  | .datetime _ => some fun _ => none
  | _ => none

namespace Value

/-- A text; other values are not turned into one. -/
def text? : Value → Option String
  | .text content => some content
  | _ => none

/-- A truth value. -/
def bool? : Value → Option Bool
  | .bool truth => some truth
  | _ => none

/-- A number from 0 that fits 64 bits. A float is none, even if it is whole. -/
def nat? : Value → Option Nat
  | .integer n => if 0 ≤ n && n < Int.pow 2 64 then some n.toNat else none
  | _ => none

/-- A list of texts, each of which must be one. -/
def texts? : Value → Option (List String)
  | .array _ items => items.mapM text?
  | _ => none

/-- One of several names: as a text, or as the only key of a table with nothing
below it. -/
def choice? {α : Type} (ofName? : String → Option α) : Value → Option α
  | .text name => ofName? name
  | .table _ [(name, .array _ [])] => ofName? name
  | .table _ [(name, .table _ [])] => ofName? name
  | _ => none

end Value

end CommandCompletion.Toml
