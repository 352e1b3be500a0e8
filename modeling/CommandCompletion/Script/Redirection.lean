/-
Leading streams elsewhere.
-/
import CommandCompletion.Script.Builtin

set_option autoImplicit false

namespace CommandCompletion.Script.Act

/-- The path from the root that a path names. -/
def pathFromRoot (path : String) : Act String := do
  return "/" ++ String.intercalate "/" ((← files).names (decode path))

/-- Why a file cannot be made, or cannot be opened. -/
def causeOf (missing : String) (cause : FileCause) : String :=
  match cause with
  | .notFound | .notDirectory => missing
  | cause => causeText cause

/-- Opens a file to write at its end, with what it held if that is kept; `none` if
it cannot be opened. -/
def openToWrite (keeps : Bool) (path : String) : Act (Option Stream) := do
  match path with
  | "/dev/null" => return some .nowhere
  | "/dev/stdout" => stream? 1
  | "/dev/stderr" => stream? 2
  | path =>
    let files ← files
    let old := match keeps, files.find (decode path) with
      | true, .ok (.file bytes) => bytes
      | _, _ => .empty
    match files.writeBytes (decode path) old with
    | .ok files => do
      setFiles files
      return some (.file (← pathFromRoot path))
    | .error cause => do
      complain (s!"cannot create {path}: " ++ causeOf "Directory nonexistent" cause) 2
      return none

/-- Opens a file to read; `none` if it cannot be opened. -/
def openToRead (path : String) : Act (Option Stream) := do
  match path with
  | "/dev/null" => return some (← openText {})
  | "/dev/stdin" => stream? 0
  | path =>
    match (← files).find (decode path) with
    | .ok (.file bytes) =>
      return some (← openText { rest := octetsOf bytes, file := some (← pathFromRoot path) })
    | .ok (.folder _) => return some (← openText {})
    | .error cause => do
      complain (s!"cannot open {path}: " ++ causeOf "No such file" cause) 2
      return none

/-- Leads a stream to a target. The answer is whether that was possible. -/
def redirect (run : Run) (number : Nat) (target : Target) : Act Bool := do
  let leadTo (stream : Option Stream) : Act Bool := do
    match stream with
    | some stream => lead number (some stream); return true
    | none => return false
  match target with
  | .write word => leadTo (← openToWrite false (← textOf run word))
  | .extend word => leadTo (← openToWrite true (← textOf run word))
  | .read word => leadTo (← openToRead (← textOf run word))
  | .readWrite word =>
    let path ← textOf run word
    unless (← files).contains (decode path) do let _ ← openToWrite false path
    leadTo (← openToRead path)
  | .document text => leadTo (some (← openText { rest := Atom.text (← wordAtoms run text) }))
  | .stream word =>
    match ← textOf run word with
    | "-" => lead number none; return true
    | text =>
      match natOf? text with
      | none => refuse "Syntax error: Bad fd number"
      | some other =>
        match ← stream? other with
        | some stream => lead number (some stream); return true
        | none => complain s!"{other}: Bad file descriptor" 2; return false

/-- Leads streams one after the other. The answer is whether that was possible. -/
def redirectAll (run : Run) : List Redirection → Act Bool
  | [] => return true
  | (number, target) :: rest => do
    if ← redirect run number target then redirectAll run rest else return false

/-- Does something while streams lead elsewhere. If they cannot, it is not done; the
answer tells. -/
def whileRedirected (run : Run) (redirections : List Redirection) (act : Act Unit) : Act Bool := do
  let streams := (← get).streams
  let back : Act Unit := modify fun process => { process with streams := streams }
  if ← redirectAll run redirections then
    let answer ← attempt act
    back
    if answer.isNone then failure
    return true
  else
    back
    return false

end CommandCompletion.Script.Act
