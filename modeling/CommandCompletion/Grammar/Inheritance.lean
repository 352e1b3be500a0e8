/-
Options that descendants inherit.

A persistent option belongs to the node that declares it and to every node
below. Where two options share an alias, the one that was there first stays:
an option of an ancestor hides a later one from the inherited list, and an
option of the node itself hides an inherited one from what is offered there.
A word that is typed, though, is looked up among the inherited options first.
-/
import CommandCompletion.Grammar

set_option autoImplicit false

namespace CommandCompletion.CommandOption

/-- Adds an option at the end, unless it shares an alias with one that is there. Then it is left out
altogether, under its other aliases too. -/
def addUnshadowed (options : List CommandOption) (option : CommandOption) : List CommandOption :=
  if options.any fun taken => taken.sharesName option then options else options ++ [option]

/-- The options of `first`, then those of `more` that share no alias with one before them
(specification, § 4.2, `mergePersistentOptions`). -/
def merge (first more : List CommandOption) : List CommandOption := more.foldl addUnshadowed first

/-- What the children of a node inherit, where `inherited` is what the node itself inherits and
`own` are its options. It only ever grows on the way down. -/
def passedOn (inherited own : List CommandOption) : List CommandOption :=
  merge inherited (own.filter fun option => option.isPersistent)

/-- The options that are offered at a node: its own, and those it inherits and does not hide. -/
def available (own inherited : List CommandOption) : List CommandOption := merge own inherited

/-- The option that a typed word names, looked up among the inherited ones first. -/
def find? (name : String) (inherited own : List CommandOption) : Option CommandOption :=
  (inherited ++ own).find? fun option => option.answersTo name

/-! ## What a merge keeps -/

@[simp] theorem merge_nil (first : List CommandOption) : merge first [] = first := rfl

@[simp] theorem merge_cons (first : List CommandOption) (option : CommandOption)
    (more : List CommandOption) :
    merge first (option :: more) = merge (addUnshadowed first option) more := rfl

/-- Nothing that was there is lost, and its order stays. -/
theorem isPrefix_merge (first more : List CommandOption) : first <+: merge first more := by
  induction more generalizing first with
  | nil => exact List.prefix_rfl
  | cons option more ih =>
    have step : first <+: addUnshadowed first option := by
      unfold addUnshadowed
      split
      · exact List.prefix_rfl
      · exact List.prefix_append _ _
    exact step.trans (ih _)

end CommandCompletion.CommandOption
