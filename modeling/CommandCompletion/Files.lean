/-
A tree of files and directories, and how a path finds its way through it.

A path is followed component by component, from the root or from the working
directory. Every component but the last must be a directory, `.` and empty
components stay where they are, and `..` goes back to where the walk came from.
What goes wrong is reported as the operating system does.
-/
import CommandCompletion.Failure
import CommandCompletion.Path
import CommandCompletion.Text.Bytes

set_option autoImplicit false

namespace CommandCompletion

/-- A file with its bytes, or a directory with its entries. There are no links, so a tree is all
that a file system is. -/
inductive Entry where
  | file (bytes : ByteArray)
  | folder (entries : List (String × Entry))

instance : Inhabited Entry := ⟨.folder []⟩

/-- Is a directory. -/
def Entry.isFolder : Entry → Bool
  | folder _ => true
  | file _ => false

/-- A file system, seen from a directory in it. Paths that do not begin at the root begin there. -/
structure Files where
  root : Entry := .folder []
  /-- Where relative paths begin. -/
  workingDirectory : String := "/"
deriving Inhabited

namespace Files

/-! ## Finding -/

/-- Longest name of a file, in bytes. -/
def maxNameBytes : Nat := 255

/-- Longest path, in bytes. -/
def maxPathBytes : Nat := 4095

/-- Follows components from `here`; `above` are the directories passed on the
way, the nearest first. -/
def follow (above : List Entry) (here : Entry) : List String → Except FileCause Entry
  | [] => .ok here
  | part :: parts =>
    match here with
    | .file _ => .error .notDirectory
    | .folder entries =>
      if part = "" || part = "." then follow above here parts
      else if part = ".." then
        match above with
        -- The root is its own parent.
        | [] => follow [] here parts
        | up :: above => follow above up parts
      else if maxNameBytes < Text.byteLength part.toList then .error .nameTooLong
      else
        match entries.lookup part with
        | some entry => follow (here :: above) entry parts
        | none => .error .notFound

/-- What keeps a path from being followed at all, `none` if nothing does. It is found before the
tree is looked at. -/
def refusal? (path : String) : Option FileCause :=
  if path.isEmpty then some .notFound
  else if path.toList.contains '\x00' then some .nulInPath
  else if maxPathBytes < Text.byteLength path.toList then some .nameTooLong
  else none

/-- The parts of a path from the root, the idle ones and `..` still among them. -/
def partsFromRoot (files : Files) (path : String) : List String :=
  Path.parts (Path.join files.workingDirectory path)

/-- What a path names. Everything that reads files comes down to this. -/
def find (files : Files) (path : String) : Except FileCause Entry :=
  match refusal? path with
  | some cause => .error cause
  | none => follow [] files.root (files.partsFromRoot path)

/-- Whether a path names a directory. Whatever keeps it from being found counts as a no. -/
def isDirectory (files : Files) (path : String) : Bool :=
  match files.find path with
  | .ok entry => entry.isFolder
  | .error _ => false

/-- Whether a path names anything. -/
def contains (files : Files) (path : String) : Bool :=
  match files.find path with
  | .ok _ => true
  | .error _ => false

/-- Whether a path names anything; anything but a missing file that keeps the
answer from being found is an error. -/
def tryContains (files : Files) (path : String) : Except FileCause Bool :=
  match files.find path with
  | .ok _ => .ok true
  | .error .notFound => .ok false
  | .error cause => .error cause

/-! ## Reading -/

/-- The entries of a directory, in the order in which the tree has them. -/
def list (files : Files) (path : String) : Except FileCause (List (String × Entry)) := do
  match ← files.find path with
  | .folder entries => .ok entries
  | .file _ => .error .notDirectory

/-- The text of a file. One whose bytes are no UTF-8 has none. -/
def readText (files : Files) (path : String) : Except FileCause String := do
  match ← files.find path with
  | .folder _ => .error .isDirectory
  | .file bytes =>
    match String.fromUTF8? bytes with
    | some text => .ok text
    | none => .error .notText

end Files

end CommandCompletion
