/-
Suggestions, and the order in which they are offered.
-/
import CommandCompletion.Text.Bytes

set_option autoImplicit false

namespace CommandCompletion

/-- What a suggestion stands for (specification, § 6). The recommender sets it by where the
candidate came from. -/
inductive SuggestionKind where
  | subcommand | option | argument | path
deriving DecidableEq, Repr, Inhabited

/-- The name of a kind, as it is shown in tables and written to JSON. -/
def SuggestionKind.name : SuggestionKind → String
  | subcommand => "subcommand"
  | option => "option"
  | argument => "argument"
  | path => "path"

/-- The priority of a suggestion that declares none: in the middle, so that a grammar can move
candidates either way. -/
def defaultPriority : Nat := 50

/-- A candidate for the next word (specification, § 3). -/
structure Suggestion where
  /-- What is shown. -/
  name : String
  /-- What takes the place of the dropped characters. -/
  insertValue : String := name
  description : Option String := none
  kind : SuggestionKind
  priority : Nat := defaultPriority
deriving DecidableEq, Repr, Inhabited

/-- The answer for a command line: candidates in the order in which they are offered, and what they
replace. -/
structure Suggestions where
  candidates : List Suggestion
  /-- How many characters at the end of the line a candidate replaces. -/
  charactersToDrop : Nat
deriving DecidableEq, Repr, Inhabited

namespace Suggestion

/-! ## Ranking -/

/-- How two candidates compare for the typed text: by falling priority, then an exact match first,
then by length in bytes, then alphabetically. Two that compare equal have the same name. -/
def rankOrder (typed : String) (a b : Suggestion) : Ordering :=
  (compare b.priority a.priority).then <|
  (compare (exactness b) (exactness a)).then <|
  (compare (Text.byteLength a.name.toList) (Text.byteLength b.name.toList)).then <|
  compare a.name b.name
where
  /-- 1 for the text that was typed, unless nothing was. -/
  exactness (s : Suggestion) : Nat := if typed ≠ "" ∧ s.name = typed then 1 else 0

/-- The candidates without those whose insert value came before; `seen` are the values that did.
After sorting, the one that is kept is the best of its value. -/
def keepFirst (seen : List String) : List Suggestion → List Suggestion
  | [] => []
  | candidate :: rest =>
    if seen.contains candidate.insertValue then keepFirst seen rest
    else candidate :: keepFirst (candidate.insertValue :: seen) rest

/-- The candidates in rank order, each insert value once. Candidates that compare equal keep their
order, so what is offered first among them is what the recommender listed first. -/
def rank (typed : String) (candidates : List Suggestion) : List Suggestion :=
  keepFirst [] (candidates.mergeSort fun a b => (rankOrder typed a b).isLE)

end Suggestion

end CommandCompletion
