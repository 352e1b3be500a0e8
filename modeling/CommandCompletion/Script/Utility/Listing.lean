/-
Listing directories.

Names come in the order of their octets. Files among the operands come before
directories, and each directory has a title if there is more than one thing to
list. Files have no dates here, so that a long listing shows the first of all
days.
-/
import CommandCompletion.Script.Utility.Paths
import CommandCompletion.Script.Utility.Lines

set_option autoImplicit false

namespace CommandCompletion.Script

/-- How the options of a listing are spelled. -/
def listingSpelling : Spelling where
  flags := "aA1dFprRlmStUhnCxgoQNbkiscuGqvXBfL"
  valued := "=Iw"
  long := [("all", 'a'), ("almost-all", 'A'), ("directory", 'd'), ("recursive", 'R'), ("reverse", 'r'),
    ("classify", 'F'), ("color", '='), ("ignore", 'I'), ("size", 's'), ("inode", 'i'),
    ("human-readable", 'h'), ("quote-name", 'Q'), ("width", 'w')]

/-- The size of an entry, as a listing tells it. -/
def sizeOfEntry : Entry → Nat
  | .file bytes => bytes.size
  | .folder _ => 4096

/-- The room that an entry takes, in units of 1024 octets. -/
def blocksOf : Entry → Nat
  | .file bytes => (bytes.size + 4095) / 4096 * 4
  | .folder _ => 4

/-- The letters that say what may be done with an entry. -/
def modeOf (entry : Entry) : String := if entry.isFolder then "drwxr-xr-x" else "-rw-r--r--"

/-- The number of names that an entry has. -/
def linksOf : Entry → Nat
  | .file _ => 1
  | .folder entries => 2 + (entries.filter fun (_, entry) => entry.isFolder).length

/-- A name with what the options add to it. -/
def shownName (options : Options) (name : String) (entry : Entry) : String :=
  let name := if options.has 'Q' then s!"\"{name}\"" else name
  if entry.isFolder && (options.has 'F' || options.has 'p') && !name.endsWith "/" then name ++ "/"
  else name

/-- Entries in order, as the options ask for. -/
def inOrder (options : Options) (entries : List (String × Entry)) : List (String × Entry) :=
  let byName := entries.mergeSort fun a b => decide (a.1 ≤ b.1)
  let extension := fun name => (Path.extension? name).getD ""
  let ordered :=
    if options.has 'U' || options.has 'f' then entries
    else if options.has 'S' then byName.mergeSort fun a b => sizeOfEntry b.2 ≤ sizeOfEntry a.2
    else if options.has 'X' then byName.mergeSort fun a b => decide (extension a.1 ≤ extension b.1)
    else byName
  if options.has 'r' then ordered.reverse else ordered

/-- The lines for some entries. -/
def showEntries (options : Options) (entries : List (String × Entry)) : String :=
  if options.has 'm' then
    if entries.isEmpty then ""
    else String.intercalate ", " (entries.map fun (name, entry) => shownName options name entry) ++ "\n"
  else if ['l', 'n', 'g', 'o'].any options.has then
    let widest := fun f : Entry → Nat =>
      (entries.foldl (fun width e => max width (toString (f e.2)).length) 0 : Nat)
    let line := fun (name, entry) =>
      let owner := if options.has 'n' then "0" else "root"
      let owners := (if options.has 'g' then "" else owner ++ " ") ++
        (if options.has 'o' || options.has 'G' then "" else owner ++ " ")
      modeOf entry ++ " " ++ alignRight (widest linksOf) (linksOf entry) ++ " " ++ owners ++
        alignRight (widest sizeOfEntry) (sizeOfEntry entry) ++ " Jan  1  1970 " ++
        shownName options name entry
    ofLines (entries.map line)
  else
    let width := (entries.foldl (fun width e => max width (toString (blocksOf e.2)).length) 0 : Nat)
    ofLines (entries.map fun (name, entry) =>
      (if options.has 's' then alignRight width (blocksOf entry) ++ " " else "") ++
        shownName options name entry)

/-- The entries of a directory that are shown. -/
def shownEntries (options : Options) (here above : Entry) (entries : List (String × Entry)) :
    List (String × Entry) :=
  let hidden := options.has 'a' || options.has 'A' || options.has 'f'
  let ignored := fun (name : String) => (options.value? 'I').any fun pattern =>
    Pattern.matchesText (pattern.toList.map fun c => ⟨c, false⟩) name
  let kept := (entries.map fun (name, entry) => (encode name, entry)).filter fun (name, _) =>
    (hidden || !name.startsWith ".") && !ignored name
  inOrder options (if options.has 'a' || options.has 'f' then (".", here) :: ("..", above) :: kept else kept)

/-- What is shown of a directory, and of those below it if that is asked for; each
with its title. -/
def showFolder (options : Options) (above : Entry) (path : String) : Entry → List (String × String)
  | .file _ => []
  | .folder entries =>
    let shown := shownEntries options (.folder entries) above entries
    let total := if ['l', 'n', 'g', 'o', 's'].any options.has then
        s!"total {shown.foldl (fun blocks e => blocks + blocksOf e.2) 0}\n"
      else ""
    let below := if options.has 'R' then
        let folders := entries.attach.flatMap fun ⟨(name, entry), _⟩ =>
          let path := (if path.endsWith "/" then path else path ++ "/") ++ encode name
          if entry.isFolder && shown.any fun e => e.1 == encode name then
            [(encode name, showFolder options (.folder entries) path entry)]
          else []
        let ordered := folders.mergeSort fun a b => decide (a.1 ≤ b.1)
        (if options.has 'r' then ordered.reverse else ordered).flatMap (·.2)
      else []
    (path, total ++ showEntries options shown) :: below
termination_by entry => sizeOf entry
decreasing_by
  rename_i member _
  have := List.sizeOf_lt_of_mem member
  simp only [Prod.mk.sizeOf_spec, Entry.folder.sizeOf_spec] at this ⊢
  omega

/-- Lists directories, and files by their names. -/
def ls (request : Request) : Result :=
  request.withOptions listingSpelling 2 fun options =>
    let paths := if options.operands.isEmpty then ["."] else options.operands
    let found := paths.filterMap fun path => (request.find path).toOption.map (path, ·)
    let troubles := paths.foldl (fun result path =>
      match request.find path with
      | .ok _ => result
      | .error cause =>
        result ++ request.complain s!"cannot access {quoteAlways path}: {causeText cause}" 2) ({} : Result)
    let isListed := fun (e : String × Entry) => e.2.isFolder && !options.has 'd'
    let files := inOrder options (found.filter fun e => !isListed e)
    let folders := (inOrder options (found.filter isListed)).flatMap fun (path, entry) =>
      let above := ((request.find (path ++ "/..")).toOption).getD entry
      showFolder options above path entry
    let titled := 1 < paths.length || options.has 'R'
    let blocks := (if files.isEmpty then [] else [showEntries options files]) ++
      folders.map fun (path, text) => (if titled then path ++ ":\n" else "") ++ text
    { troubles with out := String.intercalate "\n" blocks }

end CommandCompletion.Script
