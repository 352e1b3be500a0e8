/-
The utilities by their names, and where programs are found.
-/
import CommandCompletion.Script.Utility.Changing
import CommandCompletion.Script.Utility.Conditions
import CommandCompletion.Script.Utility.Editing
import CommandCompletion.Script.Utility.Format
import CommandCompletion.Script.Utility.Lines
import CommandCompletion.Script.Utility.Listing
import CommandCompletion.Script.Utility.Numbers
import CommandCompletion.Script.Utility.Paths
import CommandCompletion.Script.Utility.Search

set_option autoImplicit false

namespace CommandCompletion.Script

/-! ## Surroundings -/

/-- Writes the working directory. -/
def pwd (request : Request) : Result := .ofText (request.fullPath "." ++ "\n")

/-- Writes the values of parameters, or all that there are. -/
def printenv (request : Request) : Result :=
  if request.args.isEmpty then
    .ofText (ofLines (request.environment.map fun (name, value) => name ++ "=" ++ value))
  else
    let step := fun (result : Result) (name : String) =>
      result ++ match request.environment.lookup name with
        | some value => .ofText (value ++ "\n")
        | none => { status := 1 }
    request.args.foldl step {}

/-- Names the system, or other things about it that are asked for. -/
def uname (request : Request) : Result :=
  request.withOptions { flags := "asmopi", long := [("kernel-name", 's'), ("machine", 'm')] } 1
    fun options =>
      let known := [('s', "Linux"), ('m', "x86_64"), ('p', "unknown"), ('i', "unknown"), ('o', "GNU/Linux")]
      let shown := known.filter fun (letter, _) => options.has letter
      let shown := if shown.isEmpty then [('s', "Linux")] else shown
      .ofText (String.intercalate " " (shown.map (·.2)) ++ "\n")

/-- Says who the user is. -/
def user (request : Request) : Result :=
  request.withOptions { flags := "ugnrGz" } 1 fun options =>
    let name := options.has 'n'
    if options.has 'u' || options.has 'g' || options.has 'G' then .ofText (if name then "root\n" else "0\n")
    else .ofText "uid=0(root) gid=0(root) groups=0(root)\n"

/-- Says that the input is no terminal. -/
def tty (request : Request) : Result :=
  { out := if request.args.contains "-s" then "" else "not a tty\n", status := 1 }

/-! ## Names -/

/-- A utility that needs no other. -/
abbrev Utility := Request → Result

/-- The utilities that the shell has in itself, as they are there. -/
def innerUtilities : List (String × Utility) := [
  ("echo", echo true), ("printf", printf true), ("test", test), ("[", test), ("true", fun _ => {}),
  ("false", fun _ => { status := 1 }), ("pwd", pwd)]

/-- The utilities that are programs. -/
def utilities : List (String × Utility) := [
  ("echo", echo false), ("printf", printf false), ("test", test), ("[", test), ("true", fun _ => {}),
  ("false", fun _ => { status := 1 }), ("pwd", pwd), ("cat", cat), ("tac", tac), ("rev", rev),
  ("nl", nl), ("head", (Request.withEnds · head)), ("tail", (Request.withEnds · tail)), ("wc", wc), ("sort", (Request.withEnds · sort)), ("uniq", (Request.withEnds · uniq)),
  ("comm", (Request.withEnds · comm)), ("cut", (Request.withEnds · cut)), ("paste", (Request.withEnds · paste)), ("fold", fold), ("tr", tr), ("grep", (Request.withEnds · grep)),
  ("egrep", grep), ("fgrep", grep), ("sed", (Request.withEnds · sed)), ("basename", basename), ("dirname", dirname),
  ("realpath", realpath), ("readlink", readlink), ("ls", ls), ("mkdir", mkdir), ("rmdir", rmdir),
  ("rm", rm), ("touch", touch), ("cp", cp), ("mv", mv), ("tee", tee), ("seq", seq), ("expr", expr),
  ("sleep", sleep), ("yes", yes), ("printenv", printenv), ("uname", uname),
  ("arch", fun _ => .ofText "x86_64\n"), ("whoami", fun _ => .ofText "root\n"), ("id", user), ("tty", tty),
  ("sync", fun _ => {}), ("chmod", fun _ => {}), ("chown", fun _ => {})]

/-- The programs that run others. -/
def runners : List String :=
  ["sh", "dash", "env", "find", "nice", "nohup", "timeout", "which", "xargs"]

/-- The names of all programs. -/
def programs : List String := utilities.map (·.1) ++ runners

/-- The directories of programs. -/
def programDirectories : List String := ["/usr/bin", "/bin"]

/-- Where programs are looked for, unless the environment says so. -/
def usualSearchPath : String := "/usr/local/sbin:/usr/local/bin:/usr/sbin:/usr/bin:/sbin:/bin"

/-- The path of a program in the directories of a search path. -/
def programPath? (searchPath name : String) : Option String :=
  if !programs.contains name then none
  else ((searchPath.splitOn ":").find? programDirectories.contains).map (· ++ "/" ++ name)

/-- The program that a path names, given the names that the path leads through. -/
def programAt? (names : List String) : Option String :=
  match names.reverse with
  | name :: above =>
    let directory := "/" ++ String.intercalate "/" above.reverse
    if programs.contains name && programDirectories.contains directory then some name else none
  | [] => none

/-- The files that every machine has: its programs, and some directories. -/
def usualEntries : List (String × Entry) :=
  let installed : Entry := .folder (programs.eraseDups.map fun name => (name, .file .empty))
  [("bin", installed), ("dev", .folder [("null", .file .empty)]), ("etc", .folder []),
    ("root", .folder []), ("tmp", .folder []), ("usr", .folder [("bin", installed)]),
    ("var", .folder [])]

end CommandCompletion.Script
