/-
Decoding JSON values into records.

A record is written as an object, or as an array that holds the fields in the
order of their declaration. In an object, names that the record does not declare
are passed over and a declared name may occur once; an array may be shorter than
the list of fields, never longer.

Some values are held back before they are decoded, because their shape decides
what they are decoded as. Such a value must be sound as a whole: containers nest
no deeper than allowed, every number fits a double, and every string has a text.
A value that is passed over need not be sound.
-/
import CommandCompletion.Json.Value
import CommandCompletion.Named
import CommandCompletion.Text.Decimal

set_option autoImplicit false

namespace CommandCompletion.Json

/-! ## Records -/

/-- The fields found for a record, by name. A field that is not found is missing, which is not an
error by itself. -/
abbrev Fields := String → Option Value

/-- How often a name occurs among the members of an object. -/
def occurrences (members : List (Option String × Value)) (name : String) : Nat :=
  members.countP fun (key, _) => key == some name

/-- The member of this name, the first where it repeats. -/
def lookup (members : List (Option String × Value)) (name : String) : Option Value :=
  (members.find? fun (key, _) => key == some name).map (·.2)

/-- The fields of a record whose declared names are `names`, in order. Values that no field has are
not looked at. -/
def fields? (names : List String) : Value → Option Fields
  | .object members =>
    if members.all (fun (key, _) => key.isSome) &&
        names.all fun name => occurrences members name ≤ 1 then
      some (lookup members)
    else none
  | .array items =>
    -- Fields past the end of the array are missing, not null.
    if items.length ≤ names.length then
      some fun name => (names.zip items).lookup name
    else none
  | _ => none

/-- A field that may be missing or `null`. Any other value must be decoded. -/
def optional {α : Type} (decode : Value → Option α) : Option Value → Option (Option α)
  | none | some .null => some none
  | some value => (decode value).map some

/-- A field that must be there. Whether `null` will do is for its decoder to say. -/
def required {α : Type} (decode : Value → Option α) (field : Option Value) : Option α :=
  field.bind decode

/-! ## Values of a field -/

/-- Several values in an array, or a single one. An array that cannot be
decoded as several values may still be a single one. -/
def oneOrMany {α : Type} (decode : Value → Option α) (value : Value) : Option (List α) :=
  let several := match value with
    | .array items => items.mapM decode
    | _ => none
  several <|> (decode value).map fun a => [a]

/-- An integer from 0 to 255, written with digits alone, as priorities are. -/
def byte? (value : Value) : Option Nat := value.nat?.filter (· ≤ 255)

/-! ## Soundness -/

mutual

/-- Containers nest at most `levels` deep, numbers stay finite and strings have
texts. -/
def Value.isSound (levels : Nat) : Value → Bool
  | .null | .bool _ => true
  | .number literal => Text.fitsQuickDouble literal.toList
  | .string text => text.isSome
  | .array items => decide (0 < levels) && soundItems (levels - 1) items
  | .object members => decide (0 < levels) && soundMembers (levels - 1) members

/-- Every item is sound, to the same depth. -/
def soundItems (levels : Nat) : List Value → Bool
  | [] => true
  | value :: values => value.isSound levels && soundItems levels values

/-- Every member is sound, and its name has a text. -/
def soundMembers (levels : Nat) : List (Option String × Value) → Bool
  | [] => true
  | (name, value) :: members =>
    name.isSome && value.isSound levels && soundMembers levels members

end

/-- Decodes a value that is held back first. Anything unsound in it makes it fail, also in a part
that is passed over. -/
def heldBack {α : Type} (levels : Nat) (decode : Value → Option α) (value : Value) : Option α :=
  if value.isSound levels then decode value else none

/-- Decodes the items of an array, one level further down. A single value does not stand for a list.
-/
def list? {α : Type} (levels : Nat) (decode : Value → Option α) : Value → Option (List α)
  | .array items => if 0 < levels then items.mapM decode else none
  | _ => none

/-! ## Tagged unions -/

/-- A value whose first part says which kind it is of. -/
structure Tagged where
  /-- The tag as written. -/
  tag : Value
  /-- The rest, without the tag. -/
  rest : Value

/-- Parts a tagged value: an object with exactly one member of the tag's name,
or an array that begins with the tag. -/
def tagged? (tagName : String) : Value → Option Tagged
  | .object members =>
    if occurrences members tagName = 1 then
      (lookup members tagName).map fun tag =>
        ⟨tag, .object (members.filter fun (key, _) => key != some tagName)⟩
    else none
  | .array (tag :: items) => some ⟨tag, .array items⟩
  | _ => none

end CommandCompletion.Json
