/-
The catalog: known commands and everything needed to load their grammars.

A catalog itself never changes. What changes as it is used is a `Memory`:
the grammars of commands that were loaded, and for each deferred node whose
loader ran, what came of it. A node is deferred until its identity has an
outcome in the memory, and an outcome is never taken back; so a loader runs at
most once, also when it came to nothing. A command whose grammar could not be
loaded leaves no trace, and is tried again.
-/
import CommandCompletion.Catalog.Generator
import CommandCompletion.Catalog.Locator
import CommandCompletion.Catalog.Source

set_option autoImplicit false

namespace CommandCompletion

/-- A node that belongs to a catalog, and so has an identity of its own. -/
abbrev CatalogNode := Node Nat

/-- Known commands, and where the parts of their grammars come from; `σ` is the state of whatever
lies outside. All that can be asked for is a field, so that small catalogs can be written down
(specification, § 9). -/
structure Catalog (σ : Type) where
  source : Source σ
  generators : List (String × Generator σ) := []
  locator : Locator σ := .unsupported
  probe : Probe σ

/-- What a catalog remembers. The specification (§ 9) offers a table keyed by identity in place of
nodes that change; this is that table, and nodes never change. -/
structure Memory (σ : Type) where
  /-- The first identity that no node has. -/
  next : Nat := 0
  /-- What came of the loaders that ran, by the identity of their node. -/
  outcomes : List (Nat × Option CatalogNode) := []
  /-- The grammars of commands that were loaded. -/
  roots : List (String × CatalogNode) := []
  /-- Whatever lies outside. -/
  world : σ

/-- A computation that uses and extends what a catalog remembers. Requests are made one after the
other, each on the memory that the one before has left. -/
abbrev Recall (σ : Type) := StateM (Memory σ)

namespace Recall

variable {σ α : Type}

/-- Runs something that only concerns the outside: nothing is remembered of it but its result. -/
def outside (action : StateM σ α) : Recall σ α := fun memory =>
  let (result, world) := action memory.world
  (result, { memory with world := world })

/-- Gives the nodes of a grammar identities that no node has had, whatever was handed out before. -/
def adopt (grammar : Grammar) : Recall σ CatalogNode := fun memory =>
  let (node, next) := grammar.number memory.next
  (node, { memory with next := next })

/-- What came of the loader of a node, if it ran. The inner `none` is a loader that came to nothing.
-/
def outcome? (id : Nat) : Recall σ (Option (Option CatalogNode)) := fun memory =>
  (memory.outcomes.lookup id, memory)

/-- Remembers what came of the loader of a node, so that it is not run again. -/
def setOutcome (id : Nat) (outcome : Option CatalogNode) : Recall σ Unit :=
  modify fun memory => { memory with outcomes := (id, outcome) :: memory.outcomes }

/-- The grammar of a command, if it was loaded. -/
def root? (name : String) : Recall σ (Option CatalogNode) := fun memory =>
  (memory.roots.lookup name, memory)

/-- Remembers the grammar of a command. It is put in front, and what is found is what was put there
last. -/
def setRoot (name : String) (node : CatalogNode) : Recall σ Unit :=
  modify fun memory => { memory with roots := (name, node) :: memory.roots }

end Recall

namespace Memory

variable {σ : Type}

/-- Whether the node waits for its loader. A node that has none is whole from the start. -/
def isDeferred (memory : Memory σ) (node : CatalogNode) : Bool :=
  node.loader.isSome && (memory.outcomes.lookup node.id).isNone

end Memory

namespace Catalog

variable {σ : Type}

/-! ## Commands -/

/-- Names a command: neither nested below another key nor in a scope (specification, § E2.2). -/
def isRootKey (key : String) : Bool := !key.toList.contains '/' && !key.toList.contains '@'

/-- The names of the commands, in the order of the source. They are what is offered where a command
is expected, so a document need not be loaded to be suggested. -/
def rootNames (catalog : Catalog σ) : List String := catalog.source.keys.filter isRootKey

/-- The grammar whose children are all commands, each deferred to its document. It is walked where
the command of a line has no grammar and is still being typed (specification, § E2.2, "root"). -/
def rootGrammar (catalog : Catalog σ) : Grammar where
  id := ()
  names := ["root"]
  children := catalog.rootNames.map fun name => {
    id := ()
    names := [name]
    loader := some (.reference name) }

/-- The grammar that takes any number of paths, for commands without one (specification, § E2.2,
"filepaths"). -/
def filepathGrammar : Grammar where
  id := ()
  names := ["filepaths"]
  args := [{ name := "filepaths", isVariadic := true, templates := [.filepaths] }]

/-- `rootGrammar` as a node. Its identities come first, so they are the same for every memory. -/
def rootNode (catalog : Catalog σ) : CatalogNode := (catalog.rootGrammar.number 0).1

/-- `filepathGrammar` as a node. Its identities follow those of `rootNode`. -/
def filepathNode (catalog : Catalog σ) : CatalogNode :=
  (filepathGrammar.number (catalog.rootGrammar.number 0).2).1

/-- What the catalog remembers before it is used: nothing, but that the identities of its own two
grammars are given. -/
def initialMemory (catalog : Catalog σ) (world : σ) : Memory σ where
  next := (filepathGrammar.number (catalog.rootGrammar.number 0).2).2
  world := world

/-! ## Loading -/

/-- The document stored under a key, read anew each time: what is remembered is the outcome of the
node that asked for it. -/
def loadReference (catalog : Catalog σ) (key : String) :
    StateM σ (Except Failure (Option Supply)) :=
  catalog.source.load key

/-- The document that a location names: an entry of the catalog itself, or a file that the locator
finds (specification, § E2.3). -/
def loadLocation (catalog : Catalog σ) : Location →
    StateM σ (Except Failure (Option Supply))
  | .catalogEntry name => catalog.source.load name
  | .localFile path name => catalog.locator.load path name

/-- The generator of this name. Generators are registered by name because documents can only name
them. -/
def generator? (catalog : Catalog σ) (name : String) : Except Failure (Generator σ) :=
  match catalog.generators.lookup name with
  | some generator => .ok generator
  | none => .error (.generatorUnknown name)

/-- The grammar that was handed out, if there is one and it has a name (specification, § 4.1,
`normalize`). What failed counts as missing (§ 7). -/
def supplied? : Except Failure (Option Supply) → Option Grammar
  | .ok (some supply) => supply.named?
  | _ => none

/-- The grammars at several locations, in order, without the missing ones. All are loaded, also
those behind the one that will be chosen. -/
def loadLocations (catalog : Catalog σ) : List Location → StateM σ (List Grammar)
  | [] => return []
  | location :: locations => do
    let loaded := supplied? (← catalog.loadLocation location)
    let rest ← loadLocations catalog locations
    return loaded.toList ++ rest

/-- The grammar that a generator's answer stands for; `word` is the word that was typed. A list
keeps the node whose names include it (specification, § E2.3). -/
def generated? (catalog : Catalog σ) (word : String) : Generated → StateM σ (Option Grammar)
  | .fragment fragment => return some fragment
  | .location location => return supplied? (← catalog.loadLocation location)
  | .locations locations => do
    return (← catalog.loadLocations locations).find? fun grammar => grammar.answersTo word

/-- The grammar that a named generator yields for a word. A generator that is unknown or fails
yields none, and fails nothing else. -/
def generate? (catalog : Catalog σ) (name word : String) : StateM σ (Option Grammar) :=
  match catalog.generator? name with
  | .error _ => return none
  | .ok generator => do
    match ← generator.generate word catalog.probe with
    | .ok answer => catalog.generated? word answer
    | .error _ => return none

/-! ## Resolving -/

/-- The fragment that a loader yields for a word, if it yields one (specification, § 4.1). A
fragment that was carried along has identities already; what comes from outside is given some. -/
def loadFragment (catalog : Catalog σ) (word : String) : Loader CatalogNode →
    Recall σ (Option CatalogNode)
  | .inline fragment => return some fragment
  | .reference key => do
    match supplied? (← Recall.outside (catalog.loadReference key)) with
    | some grammar => return some (← Recall.adopt grammar)
    | none => return none
  | .generator name => do
    match ← Recall.outside (catalog.generate? name word) with
    | some grammar => return some (← Recall.adopt grammar)
    | none => return none

/-- The whole of a node that was named by `word`. A node without a loader is
whole. Otherwise its loader runs, unless it ran before, and what it yields is
laid over the node. -/
def resolve (catalog : Catalog σ) (node : CatalogNode) (word : String) :
    Recall σ (Option CatalogNode) :=
  match node.loader with
  | none => return some node
  | some loader => do
    match ← Recall.outcome? node.id with
    | some outcome => return outcome
    | none =>
      let outcome := (← catalog.loadFragment word loader).map node.overlay
      Recall.setOutcome node.id outcome
      return outcome

/-- The whole of the child that answers to a word (specification, § 4.1, `resolveChild`). A word
that no child answers to asks nobody. -/
def resolveChild (catalog : Catalog σ) (parent : CatalogNode) (word : String) :
    Recall σ (Option CatalogNode) :=
  match parent.findChild? word with
  | some child => catalog.resolve child word
  | none => return none

/-- The grammar of a command, which is loaded once. A name that is not listed is not looked for at
all. -/
def loadRoot (catalog : Catalog σ) (name : String) : Recall σ (Option CatalogNode) := do
  if !catalog.rootNames.contains name then return none
  match ← Recall.root? name with
  | some node => return some node
  | none =>
    match supplied? (← Recall.outside (catalog.loadReference name)) with
    | none => return none
    | some grammar =>
      let node ← Recall.adopt grammar
      -- The document itself may be deferred. If it comes to nothing, nothing is
      -- remembered under the command, and the next use loads it anew.
      match ← catalog.resolve node name with
      | none => return none
      | some node =>
        Recall.setRoot name node
        return some node

end Catalog

end CommandCompletion
