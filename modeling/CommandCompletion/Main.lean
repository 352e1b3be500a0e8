/-
The program itself.

A use of the program is a function of the files it looks at, so those are taken
in first: the settings file, the documents of the catalog, and the entries of
the directories that may be suggested. What cannot be read counts as missing.
The commands of generators run on what was taken in.
-/
import CommandCompletion.Program
import CommandCompletion.Script.Probing

set_option autoImplicit false

open CommandCompletion

namespace Main

/-- Does something that may fail; a failure counts as nothing to be had. -/
def orNothing {α : Type} (action : IO α) : IO (Option α) := do
  match ← action.toBaseIO with
  | .ok value => return some value
  | .error _ => return none

/-- Takes in the file at a path. -/
def takeFile (files : Files) (path : String) : IO Files := do
  match ← orNothing (IO.FS.readBinFile path) with
  | some bytes => return files.putFile path bytes
  | none => return files

/-- Takes in the entries of a directory, and the documents in the directories
below it down to `levels`. Other files are taken in without their content. -/
def takeDirectory : (levels : Nat) → Files → String → IO Files
  | levels, files, path => do
    let directory := (← IO.currentDir) / path
    match ← orNothing directory.readDir with
    | none => return files
    | some entries =>
      let mut files := files.putFolder path
      for entry in entries do
        let inner := Path.join path entry.fileName
        if ← entry.path.isDir then
          files := files.putFolder inner
          match levels with
          | 0 => pure ()
          | levels + 1 => files ← takeDirectory levels files inner
        else if !files.contains inner then
          files := files.putFile inner .empty
          if Path.extension? entry.fileName == some "json" then files ← takeFile files inner
      return files

/-- How deep the documents of a catalog may lie. -/
def maxLevels : Nat := 32

/-- The environment variables that count. -/
def environment : IO (List (String × String)) := do
  let names := ["HOME", "PATH", "SHELLSUGGEST_SPEC_DIR", "SHELLSUGGEST_LOG_LEVEL", "SHELLSUGGEST_SHELL"]
  let values ← names.mapM fun name => do return (← IO.getEnv name).map (name, ·)
  return values.filterMap id

/-- The machine as a use of the program sees it. -/
def machine (lookup : String → Option String) (arguments : List String) : IO Host := do
  let home := (← IO.getEnv "HOME").filter fun path => !path.isEmpty
  let here := (← IO.currentDir).toString
  let files : Files := { root := .folder Script.usualEntries, workingDirectory := here }
  let host : Host := { files := files.putFolder here, home := home }
  match CommandLine.read arguments with
  | .error _ => return host
  | .ok invocation =>
    let host := { host with
      files := ← takeFile host.files (Program.settingsPath host invocation) }
    match Settings.inForce host (.ofEnvironment lookup) invocation with
    | .error _ => return host
    | .ok (settings, _) =>
      let files ← (Program.documentDirectories settings).foldlM (takeDirectory maxLevels) host.files
      let files ← (Program.listedDirectories host settings invocation).foldlM (takeDirectory 0) files
      return { host with files := files }

end Main

/-- Runs the program with its arguments. -/
def main (arguments : List String) : IO UInt32 := do
  let environment ← Main.environment
  let lookup := fun name => environment.lookup name
  let host ← Main.machine lookup arguments
  let outcome := Program.run {
    host := host
    environment := lookup
    probe := fun directory millis => .ofScripts environment (some directory) millis }
    arguments
  IO.print outcome.printed
  outcome.reported.forM IO.eprintln
  return outcome.code.toUInt32
