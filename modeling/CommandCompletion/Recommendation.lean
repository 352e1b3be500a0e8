/-
What is offered at a place in a grammar.

Where anything may come, the children and unused options of the node are
offered together with values for its first slot. Inside a list of arguments,
values for the slot are offered, and children and options as well if every slot
that is left may be skipped. Values of a slot are its fixed choices, the names
of commands if it takes a command, and entries of the directory if it takes
paths.
-/
import CommandCompletion.Context
import CommandCompletion.Files
import CommandCompletion.Suggestion

set_option autoImplicit false

namespace CommandCompletion

/-- Decides what to offer at a place, `none` if nothing may follow there. The second argument are
the entries of the context's directory, each with whether it is a directory, so that a recommender
does not read files itself. -/
abbrev Recommender (ι : Type) := Context ι → List (String × Bool) → Option (List Suggestion)

namespace Recommendation

variable {ι : Type}

/-- The first alias that begins with what was typed, and so the first of all where nothing was. -/
def matchingName? (typed : String) (names : List String) : Option String :=
  names.find? fun name => Text.beginsWith typed name

/-- A child, under its first alias that fits. A hidden child still answers to its names when they
are typed. -/
def ofChild? (typed : String) (child : Node ι) : Option Suggestion :=
  if child.hidden then none
  else (matchingName? typed child.names).map fun name => {
    name := name
    description := child.description
    kind := .subcommand
    priority := child.priority.getD defaultPriority }

/-- An option, under its first alias that fits, unless it is hidden, or was given already and is not
repeatable. -/
def ofOption? (context : Context ι) (typed : String) (option : CommandOption) :
    Option Suggestion :=
  if option.hidden || (context.isUsed option && !option.isRepeatable) then none
  else (matchingName? typed option.names).map fun name => {
    name := name
    description := option.description
    kind := .option
    priority := option.priority.getD defaultPriority }

/-- The children and options that fit: everything that has a name at this place. -/
def childrenAndOptions (context : Context ι) (typed : String) : List Suggestion :=
  context.node.children.filterMap (ofChild? typed) ++
    context.availableOptions.filterMap (ofOption? context typed)

/-- A fixed value, if it fits. It is compared by its name as a whole, and has no aliases. -/
def ofChoice? (typed : String) (choice : Choice) : Option Suggestion :=
  if Text.beginsWith typed choice.name then
    some {
      name := choice.name
      description := choice.description
      kind := .argument
      priority := choice.priority.getD defaultPriority }
  else none

/-- The name of a command, if it fits. Nothing else is known of the command, since its grammar is
not loaded for this. -/
def ofCommand? (typed name : String) : Option Suggestion :=
  if Text.beginsWith typed name then some { name := name, kind := .subcommand } else none

/-- An entry of a directory, if it fits. Entries that begin with a dot are
offered only if a dot was typed; directories end in a separator. -/
def ofListed? (shell : Shell) (typed : String) (foldersOnly : Bool) :
    String × Bool → Option Suggestion
  | (name, isFolder) =>
    if !Text.beginsWith typed name then none
    else if Text.beginsWith "." name && !Text.beginsWith "." typed then none
    else if foldersOnly && !isFolder then none
    else some {
      name := if isFolder then name.push shell.preferredSeparator else name
      kind := .path }

/-- Values for a slot: its fixed choices, then commands, then paths. A slot can have all three, and
one that has none offers nothing. -/
def slotValues (commands : List String) (entries : List (String × Bool)) (context : Context ι)
    (typed : String) (slot : Slot) : List Suggestion :=
  let choices := slot.choices.filterMap (ofChoice? typed)
  let names := if slot.isCommand then commands.filterMap (ofCommand? typed) else []
  let paths :=
    if slot.templates.isEmpty then []
    else
      let foldersOnly := !slot.templates.contains .filepaths
      entries.filterMap (ofListed? context.shell typed foldersOnly)
  choices ++ names ++ paths

/-- The candidates before ranking, `none` if the arguments of the node are used up (specification, §
E2.5, recommendation builder). -/
def candidates? (commands : List String) (context : Context ι) (entries : List (String × Bool)) :
    Option (List Suggestion) :=
  let typed := context.typed
  let values := slotValues commands entries context typed
  match context.expected with
  | .anything argsExhausted argsUsed =>
    if argsExhausted && argsUsed then none
    else
      let named := if argsUsed then [] else childrenAndOptions context typed
      -- After the arguments of an option a child or an option may come, but the
      -- slots of the node are not begun.
      let filled := if argsExhausted then [] else
        match context.node.args with
        | [] => []
        | slot :: _ => values slot
      some (named ++ filled)
  | .value slot remainingOptional =>
    let named := if remainingOptional then childrenAndOptions context typed else []
    some (values slot ++ named)

/-- The recommender that goes by the grammar alone; `commands` are offered where a command is
expected. It looks at no identity and at no file. -/
def byGrammar (commands : List String) : Recommender ι := fun context entries =>
  (candidates? commands context entries).map (Suggestion.rank context.typed)

end Recommendation

/-- The entries of a directory, each with whether it is a directory; none for
a path that is no directory. -/
def Files.entryNames (files : Files) (path : String) : List (String × Bool) :=
  match files.list path with
  | .ok entries => entries.map fun (name, entry) => (name, entry.isFolder)
  | .error _ => []

end CommandCompletion
