/-
Paths as texts.

A path is the text its user wrote, and joining keeps it: nothing is made
canonical, so a path in an answer reads as it was put together. Components,
file names and extensions are looked for in the text when they are needed.
-/
import CommandCompletion.Text.Bytes

set_option autoImplicit false

namespace CommandCompletion.Path

/-! ## Joining -/

/-- Begins at the root. -/
def isAbsolute (path : String) : Bool := path.toList.head? == some '/'

/-- `path` seen from `base`. An absolute path stands for itself; one slash is
put between the two unless `base` is empty or ends in one. -/
def join (base path : String) : String :=
  if isAbsolute path || base.isEmpty then path
  else if base.toList.getLast? == some '/' then base ++ path
  else base ++ "/" ++ path

/-- Several parts seen from `base`, one after the other. -/
def joinAll (base : String) (parts : List String) : String := parts.foldl join base

/-! ## Components -/

/-- What stands between the slashes, empty texts included. -/
def parts (path : String) : List String := Text.cut (· == '/') path

/-- A part that leads nowhere: it is empty or a single dot. -/
def isIdle (part : String) : Bool := part == "" || part == "."

/-- The components that lead somewhere: empty ones and `.` are left out, but a
`.` that begins a relative path is kept. -/
def components (path : String) : List String :=
  let named := (parts path).filter fun part => !isIdle part
  if (parts path).head? == some "." then "." :: named else named

/-- The parts that are left after `names`, idle ones between them passed over;
`none` if the parts lead elsewhere. -/
def partsAfter? : (names parts : List String) → Option (List String)
  | [], parts => some parts
  | _ :: _, [] => none
  | name :: names, part :: parts =>
    if isIdle part then partsAfter? (name :: names) parts
    else if part = name then partsAfter? names parts
    else none

/-- The rest of `path` below `base`, without idle parts at its two ends; `none`
if it does not lie below. -/
def below? (base path : String) : Option String :=
  if isAbsolute base != isAbsolute path then none
  else
    (partsAfter? (components base) (parts path)).map fun rest =>
      let rest := rest.dropWhile isIdle
      String.intercalate "/" (rest.reverse.dropWhile isIdle).reverse

/-- Everything before the last component; `none` for a path without one. -/
def parent? (path : String) : Option String :=
  match (components path).reverse with
  | [] => none
  | _ :: above =>
    let rest := String.intercalate "/" above.reverse
    some (if isAbsolute path then "/" ++ rest else rest)

/-! ## Extensions -/

/-- The stem and the extension of a file name. The extension follows the last
dot, unless that dot begins the name; `..` has none. -/
def splitExtension (name : String) : String × Option String :=
  let after := (name.toList.reverse.takeWhile (· != '.')).reverse
  let before := name.toList.take (name.toList.length - after.length - 1)
  if name == ".." || before.isEmpty || after.length == name.toList.length then (name, none)
  else (String.ofList before, some (String.ofList after))

/-- The extension of a file name. -/
def extension? (name : String) : Option String := (splitExtension name).2

/-- The file name with its extension replaced, or dropped if the new one is
empty. `..` names no file and stays. -/
def withExtension (name extension : String) : String :=
  if name == ".." then name
  else
    let stem := (splitExtension name).1
    if extension.isEmpty then stem else stem ++ "." ++ extension

/-- The file name without its extension. The dot is left behind first, so a
stem that consists of dots may lose one more. -/
def withoutExtension (name : String) : String :=
  match extension? name with
  | none => name
  -- What is left of `a.json` first is `a.`, whose extension is empty.
  | some extension => withExtension (name.dropEnd extension.length).toString ""

end CommandCompletion.Path
