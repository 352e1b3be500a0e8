/-
Locations of grammars outside the catalog.

A generator may answer with a location instead of a grammar: a document on the
local machine, below the directory that is set up for such documents, or a
document of the catalog itself.
-/
import CommandCompletion.Json.Decoding
import CommandCompletion.Json.Reading
import CommandCompletion.Failure

set_option autoImplicit false

namespace CommandCompletion

/-- Where a grammar is stored (specification, § E2.3). -/
inductive Location where
  /-- A document on the local machine. -/
  | localFile (path : Option String) (name : String)
  /-- A document of the catalog. -/
  | catalogEntry (name : String)
deriving DecidableEq, Repr, Inhabited

namespace Location

/-- How a location is named in messages, its kind in front. -/
def describe : Location → String
  | localFile (some path) name => s!"local:{path}/{name}"
  | localFile none name => s!"local:{name}"
  | catalogEntry name => s!"global:{name}"

open Json in
/-- The location that a JSON value writes: an object with a `type`, or an
array that begins with the type. -/
def ofValue? (value : Value) : Option Location := do
  guard (value.isSound 127)
  let ⟨tag, rest⟩ ← tagged? "type" value
  match ← tag.text? with
  | "local" =>
    let field ← fields? ["path", "name"] rest
    return localFile (← optional Value.text? (field "path")) (← required Value.text? (field "name"))
  | "global" =>
    let field ← fields? ["name"] rest
    return catalogEntry (← required Value.text? (field "name"))
  | _ => none

/-- The location that a JSON text writes. Why a text is none is not told apart. -/
def ofText (text : String) : Except Failure Location :=
  match (Json.parse? text).bind ofValue? with
  | some location => .ok location
  | none => .error (.json "not a location")

end Location

end CommandCompletion
