/-
Locators: where documents outside the catalog are found.
-/
import CommandCompletion.Catalog.Source
import CommandCompletion.Location

set_option autoImplicit false

namespace CommandCompletion

/-- Loads documents of the local machine; `σ` is the state of whatever lies outside (specification,
§ E2.3). -/
structure Locator (σ : Type) where
  load : (path : Option String) → (name : String) → StateM σ (Except Failure (Option Supply))

namespace Locator

/-- The locator that knows no place: every request fails, which its caller takes for a missing
document. -/
def unsupported {σ : Type} : Locator σ where
  load path name :=
    return .error (.locationUnsupported (Location.localFile path name).describe)

/-- The text without slashes at its two ends, so that a path is always taken relative to the base.
-/
def trimSlashes (text : String) : String :=
  let cs := text.toList.dropWhile (· == '/')
  String.ofList (cs.reverse.dropWhile (· == '/')).reverse

/-- The path of a document below `base`. Only the directory is trimmed: a name that begins with a
slash leaves the base. -/
def pathOf (base : String) (path : Option String) (name : String) : String :=
  let directory := match path with
    | some path => Path.join base (trimSlashes path)
    | none => base
  Path.join directory (name ++ ".json")

/-- Loads a document below `base`; there is none if the file is missing. Any other trouble with the
file, and a text that is no document, is a failure. -/
def loadFile (base : String) (path : Option String) (name : String) (files : Files) :
    Except Failure (Option Supply) :=
  match files.readText (pathOf base path name) with
  | .ok text => (Document.ofText name text).map fun grammar => some (.grammar grammar)
  | .error .notFound => .ok none
  | .error cause => .error (.file cause)

/-- The locator of the documents below a directory, read anew whenever one is asked for. -/
def ofDirectory (base : String) : Locator World where
  load path name := return loadFile base path name (← get).files

end Locator

end CommandCompletion
