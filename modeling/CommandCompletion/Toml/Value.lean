/-
TOML values, and the tables of a document while they grow.

A table can be written in pieces: in braces, under a header, or key by key.
Whether something may still be added to it depends on how it came to be, so
every table and every array remembers its `Origin`. A document is the table that
is left when all its statements have been carried out.
-/
import CommandCompletion.Named

set_option autoImplicit false

namespace CommandCompletion.Toml

/-- How a table or an array came to be. Two that have the same members can differ in what may be
added. -/
inductive Origin where
  /-- Written in brackets or braces, complete as it stands. -/
  | closed
  /-- Stated by a header of its own. -/
  | stated
  /-- Implied by the header of a table below it. -/
  | implied
  /-- Made on the way of a dotted key. -/
  | dotted
deriving DecidableEq, Repr, Inhabited

/-- A value as a document writes it, the order of members included. -/
inductive Value where
  | text (text : String)
  | integer (value : Int)
  /-- The digits as written, without underscores. -/
  | float (literal : String)
  | bool (value : Bool)
  /-- A date, a time, or both, as written. -/
  | datetime (literal : String)
  | array (origin : Origin) (items : List Value)
  | table (origin : Origin) (members : List (String × Value))
deriving Repr, Inhabited

/-- The members of a table, in the order in which they came. -/
abbrev Members := List (String × Value)

namespace Members

/-! ## Growth -/

/-- The members with `change` made to the table that `keys` lead to from the
table `here`. Tables that are missing on the way come to be with `origin`; an
array of tables is entered at its last one. A table in braces cannot be
entered, nor can a dotted key enter one that has a header. -/
def update? (origin : Origin) (change : Origin → Members → Option Members) :
    (keys : List String) → (here : Origin) → Members → Option Members
  | [], here, members => change here members
  | key :: keys, _, members =>
    match members.lookup key with
    | none => do
      let inner ← update? origin change keys origin []
      return Named.put key (.table origin inner) members
    | some (.table was inner) =>
      -- A header may enter what dotted keys made, but not the other way round.
      if was = .closed || (origin = .dotted && was = .stated) then none
      else do
        let inner ← update? origin change keys was inner
        return Named.put key (.table was inner) members
    | some (.array .stated items) =>
      match items.getLast? with
      | some (.table was inner) => do
        let inner ← update? origin change keys was inner
        return Named.put key (.array .stated (items.dropLast ++ [.table was inner])) members
      | _ => none
    | some _ => none

/-- The members with a table that a header states. It must be new, or only implied so far; two
headers for one table are refused. -/
def state? (key : String) (members : Members) : Option Members :=
  match members.lookup key with
  | none => some (Named.put key (.table .stated []) members)
  | some (.table .implied inner) => some (Named.put key (.table .stated inner) members)
  | some _ => none

/-- The members with one more table in an array of tables, which is made if it is not there. An
array in brackets takes no more. -/
def append? (key : String) (members : Members) : Option Members :=
  match members.lookup key with
  | none => some (Named.put key (.array .stated [.table .stated []]) members)
  | some (.array .stated items) =>
    some (Named.put key (.array .stated (items ++ [.table .stated []])) members)
  | some _ => none

/-- The members with a value under a key that is not taken. Nothing is ever replaced. -/
def add? (key : String) (value : Value) (members : Members) : Option Members :=
  match members.lookup key with
  | none => some (Named.put key value members)
  | some _ => none

/-- The members with a value under a dotted key; `path` is what stands before
the last dot. A value goes below another key only into a table that dotted keys
made. -/
def assign? (path : List String) (key : String) (value : Value) (members : Members) :
    Option Members :=
  update? .dotted
    (fun here members =>
      if !path.isEmpty && here != .dotted then none else members.add? key value)
    path .stated members

end Members

/-! ## Statements -/

/-- One statement of a document. A path and the key after it stand for the keys
between the dots. -/
inductive Statement where
  /-- `[path.key]`: the next assignments are to this table. -/
  | header (path : List String) (key : String)
  /-- `[[path.key]]`: they are to a new table at the end of this array. -/
  | arrayHeader (path : List String) (key : String)
  /-- `path.key = value`. -/
  | assignment (path : List String) (key : String) (value : Value)
deriving Repr, Inhabited

/-- A document in progress: what its statements so far have defined. -/
structure Draft where
  members : Members := []
  /-- Where the assignments go. -/
  here : List String := []
deriving Repr, Inhabited

/-- Carries out a statement, `none` if it would define something twice. -/
def Draft.perform? (draft : Draft) : Statement → Option Draft
  | .header path key => do
    let members ← draft.members.update? .implied (fun _ => Members.state? key) path .stated
    return ⟨members, path ++ [key]⟩
  | .arrayHeader path key => do
    let members ← draft.members.update? .implied (fun _ => Members.append? key) path .stated
    return ⟨members, path ++ [key]⟩
  -- The keys of `here` exist already, so nothing comes to be on the way to it.
  | .assignment path key value => do
    let members ← draft.members.update? .implied (fun _ => Members.assign? path key value)
      draft.here .stated
    return { draft with members := members }

/-- The table that the statements define, carried out one after the other; `none` as soon as one
cannot be. -/
def Members.ofStatements? (statements : List Statement) : Option Members :=
  (statements.foldlM Draft.perform? {}).map Draft.members

end CommandCompletion.Toml
