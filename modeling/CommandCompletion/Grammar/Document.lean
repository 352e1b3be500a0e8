/-
Grammar documents.

A grammar is stored as JSON. A command is a record of its names, its
description, its subcommands, its options, its arguments, a loader, and how it
is shown; options and arguments are records too. Where a list is expected for
names, arguments and templates, a single value may stand for it.

A document may nest 127 levels of containers. `decodeNode` counts down the
levels that are left, which is also why it ends.
-/
import CommandCompletion.Json.Decoding
import CommandCompletion.Json.Reading
import CommandCompletion.Grammar
import CommandCompletion.Failure

set_option autoImplicit false

namespace CommandCompletion.Document

open CommandCompletion.Json
open Named (defaulting)

/-! ## Arguments and options -/

/-- The template of this name, if there is one (specification, § E2.1). -/
def template? : String → Option Template
  | "filepaths" => some .filepaths
  | "folders" => some .folders
  | _ => none

/-- A fixed value: its name alone, or an object that describes it. An array is neither, though
records can be written as one elsewhere. -/
def decodeChoice : Value → Option Choice
  | .string (some name) => some { name := name }
  | .object members => do
    let field ← fields? ["name", "description", "priority"] (.object members)
    return {
      name := ← required Value.text? (field "name")
      description := ← optional Value.text? (field "description")
      priority := ← optional byte? (field "priority") }
  | _ => none

/-- An argument. It is always part of a value that was held back, so nothing
is left to check but its shape. Templates of unknown names are dropped. -/
def decodeSlot (value : Value) : Option Slot := do
  let field ← fields? ["name", "description", "isVariadic", "isOptional", "isCommand",
    "template", "suggestions"] value
  let templates ← optional (oneOrMany Value.text?) (field "template")
  let choices ← defaulting [] Value.items? (field "suggestions")
  return {
    name := (← optional Value.text? (field "name")).getD ""
    description := ← optional Value.text? (field "description")
    isVariadic := ← defaulting false Value.bool? (field "isVariadic")
    isOptional := ← defaulting false Value.bool? (field "isOptional")
    isCommand := ← defaulting false Value.bool? (field "isCommand")
    templates := (templates.getD []).filterMap template?
    choices := ← choices.mapM decodeChoice }

/-- The names of a command or an option: one text, several, or none at all. -/
def decodeNames (levels : Nat) (field : Option Value) : Option (List String) :=
  (optional (heldBack levels (oneOrMany Value.text?)) field).map (·.getD [])

/-- The arguments of a command or an option: one record, several, or none at all. Each is sound as a
whole, or the document is refused. -/
def decodeSlots (levels : Nat) (field : Option Value) : Option (List Slot) :=
  (optional (heldBack levels (oneOrMany decodeSlot)) field).map (·.getD [])

/-- An option; `levels` counts its own container. Without a level left it is refused, however small
it is. -/
def decodeOption (levels : Nat) (value : Value) : Option CommandOption := do
  guard (0 < levels)
  let field ← fields? ["name", "description", "args", "isPersistent", "isRepeatable",
    "hidden", "priority"] value
  return {
    names := ← decodeNames (levels - 1) (field "name")
    description := ← optional Value.text? (field "description")
    args := ← decodeSlots (levels - 1) (field "args")
    isPersistent := ← defaulting false Value.bool? (field "isPersistent")
    isRepeatable := ← defaulting false Value.bool? (field "isRepeatable")
    hidden := ← defaulting false Value.bool? (field "hidden")
    priority := ← optional byte? (field "priority") }

/-! ## Commands -/

/-- The kinds of loaders, which documents name by a tag (specification, § E2.1). -/
inductive LoaderKind where
  | inline | reference | generator
deriving DecidableEq, Repr

/-- The kind of this name. Inside a value that is held back, the position of a
kind among the three names it too. -/
def loaderKind? (held : Bool) : Value → Option LoaderKind
  | .string (some "inline") => some .inline
  | .string (some "reference") => some .reference
  | .string (some "generator") => some .generator
  | .number literal =>
    if held then
      match literal.toNat? with
      | some 0 => some .inline
      | some 1 => some .reference
      | some 2 => some .generator
      | _ => none
    else none
  | _ => none

/-- A loader, in an object with a `kind` or in an array; `decodeFragment` decodes the node it
carries. Fields that the kind does not have are passed over. -/
def decodeLoader (held : Bool) (decodeFragment : Value → Option Grammar) (value : Value) :
    Option (Loader Grammar) := do
  let ⟨tag, rest⟩ ← tagged? "kind" value
  match ← loaderKind? held tag with
  | .inline =>
    let field ← fields? ["spec"] rest
    return .inline (← required decodeFragment (field "spec"))
  | .reference =>
    let field ← fields? ["key"] rest
    return .reference (← required Value.text? (field "key"))
  | .generator =>
    let field ← fields? ["name"] rest
    return .generator (← required Value.text? (field "name"))

/-- A command, whose nested commands are decoded by `decodeChild`; `levels`
counts its own container. -/
def decodeNodeWith (decodeChild : Bool → Value → Option Grammar) (levels : Nat) (held : Bool)
    (value : Value) : Option Grammar := do
  let field ← fields? ["name", "description", "subcommands", "options", "args", "loadSpec",
    "hidden", "priority"] value
  return {
    id := ()
    names := ← decodeNames (levels - 1) (field "name")
    description := ← optional Value.text? (field "description")
    children := ← defaulting [] (list? (levels - 1) (decodeChild held)) (field "subcommands")
    -- The list is one level, and each option in it another.
    options := ← defaulting [] (list? (levels - 1) (decodeOption (levels - 2))) (field "options")
    args := ← decodeSlots (levels - 1) (field "args")
    loader := ← optional (heldBack (levels - 1) (decodeLoader held (decodeChild true)))
      (field "loadSpec")
    hidden := ← defaulting false Value.bool? (field "hidden")
    priority := ← optional byte? (field "priority") }

/-- A command in a document that may nest `levels` deep from here. A subcommand stands two levels
further down, in the list and in its own container. -/
def decodeNode : Nat → Bool → Value → Option Grammar
  | 0, _, _ => none
  | 1, held, value => decodeNodeWith (fun _ _ => none) 1 held value
  | levels + 2, held, value => decodeNodeWith (decodeNode levels) (levels + 2) held value

/-- The number of levels to which a document may nest. -/
def maxLevels : Nat := 127

/-- The grammar that a JSON value writes. Inside a fragment that a loader carries, values were held
back already, which the flag says. -/
def ofValue? (value : Value) : Option Grammar := decodeNode maxLevels false value

/-- The grammar stored under `key` as this text. The key plays no part but in the message. -/
def ofText (key text : String) : Except Failure Grammar :=
  match (Json.parse? text).bind ofValue? with
  | some grammar => .ok grammar
  | none => .error (.grammarMalformed key "not a grammar document")

end CommandCompletion.Document
