/-
Suggestions for a command line.

The line is split into words. The first word, once it is complete, picks the
grammar; the words after it are walked down that grammar, and what is offered at
the place reached is the answer. A command without a grammar gets paths, and a
command that is still being typed gets the names of commands.

A candidate replaces the last characters of the line: those of the word being
typed, or only those of its last segment if the word reads as a path.
-/
import CommandCompletion.PathReading
import CommandCompletion.Recommendation
import CommandCompletion.Walk
import CommandCompletion.Word.Splitting

set_option autoImplicit false

namespace CommandCompletion

/-- A line as a completion sees it: the words before the cursor's, and the one the cursor is in. The
cursor is always at the end of the line. -/
structure TypedLine where
  /-- Complete words. -/
  earlier : List Word
  /-- The word in progress, empty if none was begun. -/
  current : Word
  /-- No word was begun, because the line ends in a blank. -/
  betweenWords : Bool
deriving DecidableEq, Repr, Inhabited

namespace TypedLine

/-- The words of a line, `none` if it has none. Behind a blank an empty word is in progress, which
stands for the one to come (specification, § 4.4, step 1). -/
def ofLine? (shell : Shell) (line : String) : Option TypedLine :=
  let words := shell.words line
  match words.getLast? with
  | none => none
  | some last =>
    if last.complete then
      some {
        earlier := words
        current := Word.emptyAt (Text.byteLength line.toList)
        betweenWords := true }
    else some { earlier := words.dropLast, current := last, betweenWords := false }

/-- All words, the one in progress last. A line without a grammar is walked as these, its command
included. -/
def words (typed : TypedLine) : List Word := typed.earlier ++ [typed.current]

end TypedLine

/-- A word with what was found out about it as a path. The text stays as it is: only the two flags
tell the context that its last segment alone is being typed. -/
def Word.readAs (word : Word) (reading : PathReading) : Word :=
  if reading.isPath then
    { word with isPath := true, isPathComplete := reading.isPathComplete }
  else word

/-- How many characters at the end of the line a candidate replaces, if the word in progress reads
like this: the last segment of a path, any other word as it stands on the line (specification, §
4.4). -/
def charactersToDrop (shell : Shell) (line : String) (word : Word) (reading : PathReading) : Nat :=
  if reading.isPath then
    if reading.isPathComplete then 0 else (shell.baseName word.text).length
  else word.rawLength line

/-- A catalog, what to offer from it, and where the files lie in what lies outside. It is passed to
whatever uses it; there is none that all share (specification, § 9). -/
structure Engine (σ : Type) where
  catalog : Catalog σ
  files : σ → Files
  recommender : Recommender Nat

namespace Engine

variable {σ : Type}

/-- The engine that goes by the grammars alone, and offers the catalog's
commands where a command is expected. -/
def ofCatalog (files : σ → Files) (catalog : Catalog σ) : Engine σ where
  catalog := catalog
  files := files
  recommender := Recommendation.byGrammar catalog.rootNames

/-- The machine as a user with this home directory sees it now. -/
def host (engine : Engine σ) (home : Option String) : Recall σ Host :=
  return { files := engine.files (← get).world, home := home }

/-- The place a line leads to, and how many characters a candidate replaces (specification, § 4.4,
steps 2 to 4). -/
def locate (engine : Engine σ) (home : Option String) (shell : Shell) (cwd line : String)
    (typed : TypedLine) : Recall σ (Except Failure (Option (Context Nat) × Nat)) := do
  let catalog := engine.catalog
  let whole := typed.current.rawLength line
  let root ← match typed.earlier with
    | [] => pure none
    | command :: _ => catalog.loadRoot command.text
  match root with
  | some root =>
    -- The walk does not look at the directory; it only hands it on to the context.
    let reading := PathReading.ofText (← engine.host home) shell cwd typed.current.text
    let words := typed.earlier.tail ++ [typed.current.readAs reading]
    let place ← catalog.locate reading.directory shell words root
    return place.map fun context? =>
      (context?, charactersToDrop shell line typed.current reading)
  | none =>
    -- Without a grammar the whole line is walked, the command included.
    let grammar := if typed.betweenWords then catalog.filepathNode else catalog.rootNode
    let place ← catalog.locate cwd shell typed.words grammar
    return place.map fun context? => (context?, whole)

/-- Suggestions for the line typed in `cwd`, `none` if there is nothing to suggest. This is a
request: all else in the program either makes one or shows its answer. -/
def suggest (engine : Engine σ) (home : Option String) (shell : Shell) (cwd line : String) :
    Recall σ (Except Failure (Option Suggestions)) := do
  match TypedLine.ofLine? shell line with
  | none => return .ok none
  | some typed =>
    let place ← engine.locate home shell cwd line typed
    -- A generator that ran on the way may have changed the directory.
    let host ← engine.host home
    return place.map fun (context?, dropped) => do
      let context ← context?
      let candidates ← engine.recommender context (host.files.entryNames context.directory)
      return { candidates := candidates, charactersToDrop := dropped }

end Engine

end CommandCompletion
