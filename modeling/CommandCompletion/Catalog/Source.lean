/-
Sources: where the documents of a catalog are stored.

A source knows its keys and loads what is stored under one. A key looks like
`git`, `git/remote` or `@scope/tool`. Documents in a directory are indexed once;
each is read anew whenever it is loaded.
-/
import CommandCompletion.Grammar.Document
import CommandCompletion.Named
import CommandCompletion.World

set_option autoImplicit false

namespace CommandCompletion

/-- A grammar as handed out: ready, or to be made (specification, § 4.1, `normalize`). -/
inductive Supply where
  | grammar (grammar : Grammar)
  | factory (make : Unit → Grammar)

/-- The grammar that is supplied. Making one cannot fail and asks nobody. -/
def Supply.get : Supply → Grammar
  | .grammar stored => stored
  | .factory make => make ()

/-- The grammar that is supplied, if it has a name. A nameless one is a fragment, which says nothing
by itself. -/
def Supply.named? (supply : Supply) : Option Grammar :=
  if supply.get.hasName then some supply.get else none

/-- Stored grammars; `σ` is the state of whatever lies outside. The keys are fixed when a source is
opened; what is stored under them may change. -/
structure Source (σ : Type) where
  keys : List String
  load : String → StateM σ (Except Failure (Option Supply))

namespace Source

/-! ## Stored in memory -/

/-- The source that holds these entries; a later one replaces an earlier one of the same key, at the
place of that one. -/
def ofEntries {σ : Type} (entries : List (String × Supply)) : Source σ :=
  let stored := entries.foldl (fun stored (key, supply) => Named.put key supply stored) []
  { keys := stored.map (·.1)
    load := fun key => return .ok (stored.lookup key) }

/-! ## Stored in a directory -/

/-- The key of a document: the directories that lead to it and its name without
the extension. `parts` is the path below the source's directory. -/
def keyOf (parts : List String) : String :=
  match parts.reverse with
  | [] => ""
  | name :: above => String.intercalate "/" (above.reverse ++ [Path.withoutExtension name])

/-- The path of the document with this key: its parts below the directory, the extension of the last
one replaced. A name with a dot of its own loses what follows it. -/
def pathOf (directory key : String) : String :=
  let parts := Path.parts key
  Path.joinAll directory (parts.dropLast ++ [Path.withExtension (parts.getLastD "") "json"])

mutual

/-- The documents at or below an entry; `above` is the path that leads to it, in reverse. Only the
extension tells a document. -/
def documentsOf (above : List String) (name : String) : Entry → List (List String)
  | .file _ => if Path.extension? name == some "json" then [(name :: above).reverse] else []
  | .folder entries => documentsIn (name :: above) entries

/-- The documents below the entries of a directory, in the order in which they are listed. -/
def documentsIn (above : List String) : List (String × Entry) → List (List String)
  | [] => []
  | (name, entry) :: entries => documentsOf above name entry ++ documentsIn above entries

end

/-- The keys of the documents below some entries, sorted. Each document has one, so two documents
can have the same. -/
def keysBelow (entries : List (String × Entry)) : List String :=
  ((documentsIn [] entries).map keyOf).mergeSort fun a b => decide (a ≤ b)

/-- Loads a document of a directory, if its key is indexed. A document that has gone since is a
failure, and one that came since is not seen. -/
def loadFile (directory : String) (keys : List String) (key : String) (files : Files) :
    Except Failure (Option Supply) :=
  if keys.contains key then
    match files.readText (pathOf directory key) with
    | .ok text => (Document.ofText key text).map fun grammar => some (.grammar grammar)
    | .error cause => .error (.file cause)
  else .ok none

/-- The source of the documents below a directory, as it is now. A directory
that does not exist holds none. -/
def openDirectory (directory : String) (files : Files) : Except Failure (Source World) := do
  let fail := fun cause => Failure.file cause
  -- Only a directory that is not there is empty; a file in its place is an error.
  let keys ← if ← (files.tryContains directory).mapError fail then
      (keysBelow <$> files.list directory).mapError fail
    else pure []
  return {
    keys := keys
    load := fun key => return loadFile directory keys key (← get).files }

end Source

end CommandCompletion
