/-
Reading the word being typed as a path.

A word reads as a path if it has a separator of the shell and the part up to the
last one leads to a directory. The entries of that directory are then what can
follow, and only the part after the last separator is being typed.
-/
import CommandCompletion.Shell
import CommandCompletion.World

set_option autoImplicit false

namespace CommandCompletion

/-- Where a word points. A word that is no path points to the directory it was typed in, so there is
always one to list. -/
structure PathReading where
  /-- The directory whose entries are offered. -/
  directory : String
  /-- The word has a directory part, and it exists. -/
  isPath : Bool := false
  /-- The word ends in a separator, so nothing of the last segment is typed. -/
  isPathComplete : Bool := false
deriving DecidableEq, Repr, Inhabited

namespace PathReading

/-- A leading tilde stands for the home directory, and slashes and backslashes after it are dropped.
Without a home directory it is an ordinary character. -/
def expandHome (home : Option String) (path : String) : String :=
  match path.toList, home with
  | '~' :: rest, some home =>
    Path.join home (String.ofList (rest.dropWhile fun c => c == '/' || c == '\\'))
  | _, _ => path

/-- The directory that the directory part of a word names, before it is seen from anywhere: the
separators of the shell are those of the system, and a tilde is expanded. -/
def candidate (home : Option String) (shell : Shell) (text : String) : String :=
  let part := (shell.directoryPart text).toList.map fun c => if shell.isSeparator c then '/' else c
  expandHome home (String.ofList part)

/-- Where a word points, seen from `cwd` (specification, § E2.5, path resolver). It is a path only
if its directory is there; otherwise it is a word like any other. -/
def ofText (host : Host) (shell : Shell) (cwd text : String) : PathReading :=
  if (shell.directoryPart text).isEmpty then { directory := cwd }
  else
    let directory := Path.join cwd (candidate host.home shell text)
    if host.files.isDirectory directory then
      { directory := directory, isPath := true, isPathComplete := (shell.baseName text).isEmpty }
    else { directory := cwd }

/-- Where the word being typed points, if one is. Without one, paths begin where the line is typed.
-/
def ofText? (host : Host) (shell : Shell) (cwd : String) : Option String → PathReading
  | some text => ofText host shell cwd text
  | none => { directory := cwd }

end PathReading

end CommandCompletion
