/-
Paths as texts, and the paths that they lead to.
-/
import CommandCompletion.Script.Utility.Basic

set_option autoImplicit false

namespace CommandCompletion.Script

/-- A path without slashes at its end, unless it is nothing but slashes. -/
def trimSlashes (path : String) : String :=
  let cs := (path.toList.reverse.dropWhile (· == '/')).reverse
  if cs.isEmpty then String.ofList (path.toList.take 1) else String.ofList cs

/-- The last name in a path. -/
def lastName (path : String) : String :=
  let trimmed := trimSlashes path
  if trimmed = "/" then "/" else ((trimmed.splitOn "/").getLast?).getD ""

/-- The path of the directory that the last name in a path stands in. -/
def aboveName (path : String) : String :=
  let names := (trimSlashes path).splitOn "/"
  match names.dropLast with
  | [] => if path.startsWith "/" then "/" else "."
  | above =>
    let above := String.intercalate "/" above
    if above.isEmpty then "/" else trimSlashes above

/-- The last names in paths, without an ending that is not all of the name. -/
def basename (request : Request) : Result :=
  let spelling : Spelling := {
    flags := "az", valued := "s", long := [("multiple", 'a'), ("suffix", 's'), ("zero", 'z')]
    ordered := true }
  request.withOptions spelling 1 fun options =>
    let stop := if options.has 'z' then "\x00" else "\n"
    let write := fun (ending path : String) =>
      let name := lastName path
      (if name != ending && name.endsWith ending then (name.dropEnd ending.length).toString else name) ++ stop
    match options.operands with
    | [] => request.misuse "missing operand"
    | paths =>
      if options.has 'a' || options.has 's' then
        .ofText (String.join (paths.map (write ((options.value? 's').getD ""))))
      else
        match paths with
        | [path] => .ofText (write "" path)
        | [path, ending] => .ofText (write ending path)
        | _ => request.misuse ("extra operand " ++ quoteAlways (paths.getD 2 ""))

/-- The paths of the directories that names stand in. -/
def dirname (request : Request) : Result :=
  request.withOptions { flags := "z", long := [("zero", 'z')] } 1 fun options =>
    let stop := if options.has 'z' then "\x00" else "\n"
    if options.operands.isEmpty then request.misuse "missing operand"
    else .ofText (String.join (options.operands.map fun path => aboveName path ++ stop))

/-- The path from the root, without detours. -/
def Request.fullPath (request : Request) (path : String) : String :=
  encode ("/" ++ String.intercalate "/" (request.files.names (decode path)))

/-- Why a path leads nowhere, if all of it must exist, or all but the last name,
or none of it. -/
def Request.refusalOf (request : Request) (all nothing : Bool) (path : String) : Option FileCause :=
  if nothing then none
  else
    match request.find path with
    | .ok _ => none
    | .error .notFound =>
      if !all && !path.isEmpty && request.files.isDirectory (decode (aboveName path)) then none
      else some .notFound
    | .error cause => some cause

/-- The paths that paths lead to. -/
def realpath (request : Request) : Result :=
  request.withOptions { flags := "emqszLP" } 1 fun options =>
    let step := fun (result : Result) (path : String) =>
      match request.refusalOf (options.has 'e') (options.has 'm') path with
      | none => result ++ .ofText (request.fullPath path ++ "\n")
      | some cause =>
        result ++ (if options.has 'q' then { status := 1 }
          else request.complain (Request.plainly path (causeText cause)))
    if options.operands.isEmpty then request.misuse "missing operand"
    else options.operands.foldl step {}

/-- Where links lead. There are none, so that only the paths that paths lead to
can be asked for. -/
def readlink (request : Request) : Result :=
  request.withOptions { flags := "femnqsvz" } 1 fun options =>
    let follows := options.has 'f' || options.has 'e' || options.has 'm'
    let step := fun (result : Result) (path : String) =>
      if follows && (request.refusalOf (options.has 'e') (options.has 'm') path).isNone then
        result ++ .ofText (request.fullPath path ++ if options.has 'n' then "" else "\n")
      else result ++ { status := 1 }
    if options.operands.isEmpty then request.misuse "missing operand"
    else options.operands.foldl step {}

end CommandCompletion.Script
