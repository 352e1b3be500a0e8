/-
Changing a tree of files.

Changes are made at a list of names that leads down from the root. A path is
first turned into such a list; as the tree has no links, `..` undoes the name
before it.
-/
import CommandCompletion.Files

set_option autoImplicit false

namespace CommandCompletion

/-! ## Entries of a directory -/

/-- The entries with the one of this name replaced, added or dropped. -/
def setEntry (name : String) (entry : Option Entry) : List (String × Entry) → List (String × Entry)
  | [] => entry.toList.map fun e => (name, e)
  | (other, e) :: rest =>
    if other = name then entry.toList.map (fun e => (name, e)) ++ rest
    else (other, e) :: setEntry name entry rest

/-- The tree with `change` made to what the names lead to, `none` standing for
nothing. Directories that are missing on the way are made; a file in the way
gives way to one. -/
def Entry.update (change : Option Entry → Option Entry) : List String → Option Entry → Option Entry
  | [], here => change here
  | name :: names, here =>
    let entries := match here with
      | some (.folder entries) => entries
      | _ => []
    some (.folder (setEntry name (update change names (entries.lookup name)) entries))

namespace Files

/-- The names a path leads through, from the root. -/
def names (files : Files) (path : String) : List String :=
  (Path.parts (Path.join files.workingDirectory path)).foldl
    (fun names part =>
      if part = "" || part = "." then names
      else if part = ".." then names.dropLast
      else names ++ [part]) []

/-- The tree with `change` made at a path. -/
def updateAt (files : Files) (path : String) (change : Option Entry → Option Entry) : Files :=
  { files with root := (Entry.update change (files.names path) (some files.root)).getD (.folder []) }

/-- Puts a file in place, with the directories that lead to it. -/
def putFile (files : Files) (path : String) (bytes : ByteArray) : Files :=
  files.updateAt path fun _ => some (.file bytes)

/-- Makes a directory with those that lead to it; one that exists stays. -/
def putFolder (files : Files) (path : String) : Files :=
  files.updateAt path fun here => some (here.getD (.folder []))

/-- Removes what a path names, with all it holds. -/
def remove (files : Files) (path : String) : Files :=
  if files.contains path then files.updateAt path fun _ => none else files

/-! ## Saving -/

/-- Where something is to be made. -/
structure Place where
  /-- The entries of the directory it stands in. -/
  entries : List (String × Entry)
  /-- Its name, `none` if the path ends where it has been already: at the root,
  in `.` or in `..`. -/
  name : Option String
  /-- The path says that it is a directory. -/
  asFolder : Bool

/-- Finds the place of a path. The directories that lead to it must exist. -/
def place (files : Files) (path : String) : Except FileCause Place := do
  if let some cause := refusal? path then throw cause
  let backwards := (files.partsFromRoot path).reverse
  let named := backwards.dropWhile (· == "")
  let last := named.headD ""
  match ← follow [] files.root named.tail.reverse with
  | .file _ => .error .notDirectory
  | .folder entries =>
    return {
      entries := entries
      name := if last = "" || last = "." || last = ".." then none else some last
      asFolder := backwards.head? == some "" }

/-- Makes a directory in one that exists. -/
def makeFolder (files : Files) (path : String) : Except FileCause Files := do
  let place ← files.place path
  match place.name with
  | none => .error .alreadyExists
  | some name =>
    if maxNameBytes < Text.byteLength name.toList then .error .nameTooLong
    else if (place.entries.lookup name).isSome then .error .alreadyExists
    else return files.putFolder path

/-- Makes the directory that the components lead to, and those on the way that
are missing. The components come in reverse, behind `start`. -/
def makeFoldersFrom (files : Files) (start : String) : List String → Except FileCause Files
  | [] => .ok files
  | name :: above =>
    let path := start ++ String.intercalate "/" (name :: above).reverse
    -- A directory that exists is as good as a new one.
    let settle (files : Files) : Except FileCause Files → Except FileCause Files
      | .ok made => .ok made
      | .error cause => if files.isDirectory path then .ok files else .error cause
    match files.makeFolder path with
    | .error .notFound => do
      let files ← makeFoldersFrom files start above
      settle files (files.makeFolder path)
    | result => settle files result

/-- Makes a directory and those that lead to it. -/
def makeFolders (files : Files) (path : String) : Except FileCause Files :=
  files.makeFoldersFrom (if Path.isAbsolute path then "/" else "") (Path.components path).reverse

/-- Writes a file whose directory exists. -/
def writeBytes (files : Files) (path : String) (bytes : ByteArray) : Except FileCause Files := do
  let place ← files.place path
  match place.name with
  | none => .error .isDirectory
  | some name =>
    if place.asFolder then .error .isDirectory
    else if maxNameBytes < Text.byteLength name.toList then .error .nameTooLong
    else
      match place.entries.lookup name with
      | some (.folder _) => .error .isDirectory
      | _ => return files.putFile path bytes

/-- Writes a text to a file whose directory exists. -/
def writeText (files : Files) (path text : String) : Except FileCause Files :=
  files.writeBytes path text.toUTF8

end Files

end CommandCompletion
