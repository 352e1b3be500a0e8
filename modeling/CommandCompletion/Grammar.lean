/-
Grammars of commands.

A grammar is a tree of nodes. A node stands for a command or a subcommand: the
names it answers to, its options, the slots for its positional arguments, and
its children. A node may be deferred: then it carries a `Loader` that says where
the rest of its grammar comes from, and the rest is laid over what it carries.

The type of nodes is parametric in what identifies a node. A grammar as written
identifies nothing (`Grammar`); once it belongs to a catalog each node has an
identity, under which the outcome of its loader is remembered.
-/

set_option autoImplicit false

namespace CommandCompletion

/-! ## Arguments -/

/-- What the file system offers for a slot. A slot with any template offers directories, and files
too with the first. -/
inductive Template where
  /-- Files and directories. -/
  | filepaths
  /-- Directories. -/
  | folders
deriving DecidableEq, Repr

/-- A fixed value offered for a slot. It is only offered: other words are taken as values just as
well. -/
structure Choice where
  name : String
  description : Option String := none
  /-- From 0 to 255. -/
  priority : Option Nat := none
deriving DecidableEq, Repr, Inhabited

/-- A positional value that a command or an option expects (specification, § 3). Optional slots can
be skipped over; which comes next is decided by the walk. -/
structure Slot where
  name : String := ""
  description : Option String := none
  /-- Takes any number of words. -/
  isVariadic : Bool := false
  isOptional : Bool := false
  /-- The value names a command, whose grammar takes over. -/
  isCommand : Bool := false
  templates : List Template := []
  choices : List Choice := []
deriving DecidableEq, Repr, Inhabited

/-! ## Options -/

/-- An option of a command, possibly with arguments of its own (specification, § 3). -/
structure CommandOption where
  /-- The aliases, such as `-v` and `--verbose`. -/
  names : List String := []
  description : Option String := none
  args : List Slot := []
  /-- Also an option of every descendant of the node that declares it. -/
  isPersistent : Bool := false
  /-- Offered again after it was typed. -/
  isRepeatable : Bool := false
  hidden : Bool := false
  /-- From 0 to 255. -/
  priority : Option Nat := none
deriving DecidableEq, Repr, Inhabited

namespace CommandOption

/-- One of the aliases is `name`, to the letter: nothing is matched by prefix here. -/
def answersTo (option : CommandOption) (name : String) : Bool := option.names.contains name

/-- The two options have an alias in common. This is what is meant by one option hiding another. -/
def sharesName (a b : CommandOption) : Bool := a.names.any fun name => b.answersTo name

/-- Having an alias in common is symmetric. -/
theorem sharesName_comm (a b : CommandOption) : a.sharesName b = b.sharesName a := by
  have one_way : ∀ a b : CommandOption, a.sharesName b = true → b.sharesName a = true := by
    intro a b h
    obtain ⟨name, hmem, hans⟩ := List.any_eq_true.1 h
    exact List.any_eq_true.2 ⟨name, by simpa [answersTo] using hans, by simpa [answersTo] using hmem⟩
  exact Bool.eq_iff_iff.2 ⟨one_way a b, one_way b a⟩

end CommandOption

/-! ## Nodes -/

/-- Where the rest of a deferred node's grammar comes from; `α` is the type of nodes. The three are
the specification's (§ 4.1), told apart by tags (§ 9). -/
inductive Loader (α : Type) where
  /-- A node carried along. -/
  | inline (fragment : α)
  /-- The document stored under a key. -/
  | reference (key : String)
  /-- What a registered generator answers. -/
  | generator (name : String)
deriving Repr

/-- A command or subcommand; `ι` is what identifies a node (specification, § 3). -/
structure Node (ι : Type) where
  id : ι
  /-- The first is the primary name. A fragment has none. -/
  names : List String := []
  description : Option String := none
  children : List (Node ι) := []
  options : List CommandOption := []
  args : List Slot := []
  hidden : Bool := false
  /-- From 0 to 255. -/
  priority : Option Nat := none
  /-- Present while there is more to the node than it carries. -/
  loader : Option (Loader (Node ι)) := none

/-- A grammar as written, in which nothing tells two equal nodes apart. -/
abbrev Grammar := Node Unit

instance {ι : Type} [Inhabited ι] : Inhabited (Node ι) := ⟨{ id := default }⟩

/-- The second value, unless it is empty. An empty list stands for a field that is not filled. -/
def orElseNonempty {α : Type} (base upper : List α) : List α :=
  if upper.isEmpty then base else upper

namespace Node

variable {ι : Type}

/-- The primary name, empty for a fragment. What is shown of a node is this one. -/
def name (node : Node ι) : String := node.names.headD ""

/-- Has a name, so it is more than a fragment and can be a result (specification, § 4.1). -/
def hasName (node : Node ι) : Bool := !node.names.isEmpty

/-- `name` is one of the node's names. -/
def answersTo (node : Node ι) (name : String) : Bool := node.names.contains name

/-- The first child that answers to `name`. Two children with the same name are not an error; the
second one is never found by it. -/
def findChild? (node : Node ι) (name : String) : Option (Node ι) :=
  node.children.find? fun child => child.answersTo name

/-- The node with the filled fields of `fragment` laid over its own. The result
takes the identity of the fragment, which nothing else refers to. It is whole,
so it has no loader, not even one that the fragment carries. The children are
those of one of the two nodes, with their identities. -/
def overlay (base fragment : Node ι) : Node ι where
  id := fragment.id
  names := orElseNonempty base.names fragment.names
  description := fragment.description <|> base.description
  children := orElseNonempty base.children fragment.children
  options := orElseNonempty base.options fragment.options
  args := orElseNonempty base.args fragment.args
  hidden := base.hidden
  priority := fragment.priority <|> base.priority

end Node

/-! ## Identities -/

mutual

/-- Gives every node of a grammar, those carried by loaders included, an identity of its own,
starting with `next`; answers also the first one left. Nothing else of the grammar changes. -/
def Node.number (node : Grammar) (next : Nat) : Node Nat × Nat :=
  match node with
  | ⟨_, names, description, children, options, args, hidden, priority, loader⟩ =>
    let (children, left) := numberAll children (next + 1)
    match loader with
    | none => (⟨next, names, description, children, options, args, hidden, priority, none⟩, left)
    | some (.inline fragment) =>
      let (fragment, left) := Node.number fragment left
      (⟨next, names, description, children, options, args, hidden, priority,
        some (.inline fragment)⟩, left)
    | some (.reference key) =>
      (⟨next, names, description, children, options, args, hidden, priority,
        some (.reference key)⟩, left)
    | some (.generator name) =>
      (⟨next, names, description, children, options, args, hidden, priority,
        some (.generator name)⟩, left)

/-- Numbers the nodes of a list one after the other, each starting where the one before has left
off. -/
def numberAll (nodes : List Grammar) (next : Nat) : List (Node Nat) × Nat :=
  match nodes with
  | [] => ([], next)
  | node :: nodes =>
    let (node, left) := node.number next
    let (nodes, left) := numberAll nodes left
    (node :: nodes, left)

end

mutual

/-- The grammar without identities. Two nodes that are equal so are interchangeable for everything
but what is remembered of them. -/
def Node.plain {ι : Type} (node : Node ι) : Grammar :=
  match node with
  | ⟨_, names, description, children, options, args, hidden, priority, loader⟩ =>
    let children := plainAll children
    match loader with
    | none => ⟨(), names, description, children, options, args, hidden, priority, none⟩
    | some (.inline fragment) =>
      ⟨(), names, description, children, options, args, hidden, priority,
        some (.inline (Node.plain fragment))⟩
    | some (.reference key) =>
      ⟨(), names, description, children, options, args, hidden, priority, some (.reference key)⟩
    | some (.generator name) =>
      ⟨(), names, description, children, options, args, hidden, priority, some (.generator name)⟩

/-- The grammars of a list without identities. -/
def plainAll {ι : Type} : List (Node ι) → List Grammar
  | [] => []
  | node :: nodes => node.plain :: plainAll nodes

end

end CommandCompletion
