/-
The program: what a use of it prints, and how it ends.

The settings in force come from the settings file, then the environment, then
the arguments. A bad override and settings that make no sense are reported and
done without, but a settings file that cannot be read ends the program.
-/
import CommandCompletion.CommandLine
import CommandCompletion.CompletionScript
import CommandCompletion.Engine
import CommandCompletion.Settings.Document

set_option autoImplicit false

namespace CommandCompletion

/-! ## Settings in force -/

/-- Something that is reported, but does not end the program: it goes on with what makes sense. -/
inductive Notice where
  /-- An override does not make sense, and neither it nor a later one counts. -/
  | overrideIgnored (failure : Failure)
  /-- The settings make no sense, and the defaults are in force instead. -/
  | settingsRejected (failure : Failure)
  /-- There is no such form of output, and JSON stands for it. -/
  | formatUnknown (name : String)
deriving DecidableEq, Repr, Inhabited

/-- The lines that report a notice, each of them a warning or the rest of one. -/
def Notice.lines : Notice → List String
  | overrideIgnored failure => ["Warning: Ignoring environment override: " ++ failure.message]
  | settingsRejected failure => [
    "Warning: Configuration validation failed: " ++ failure.message,
    "Using default configuration instead."]
  | formatUnknown name => ["Warning: Unknown format '" ++ name ++ "', using json"]

namespace Settings

/-- The settings under overrides, the defaults if they make no sense. The check comes after the
overrides, so a file that makes no sense can be made to. -/
def underOverrides (home : Option String) (overrides : Overrides) (settings : Settings) :
    Settings × List Notice :=
  let (settings, overridden) := settings.override overrides
  let ignored := match overridden with
    | .ok _ => []
    | .error failure => [Notice.overrideIgnored failure]
  match settings.validate with
  | .ok _ => (settings, ignored)
  -- The defaults replace what the environment said as well.
  | .error failure => (default home, ignored ++ [.settingsRejected failure])

/-- The form of output that the arguments ask for. A form that there is none of is JSON. -/
def formatUnder (invocation : Invocation) (settings : Settings) : OutputFormat × List Notice :=
  match invocation.format with
  | none => (settings.display.format, [])
  | some name =>
    match OutputFormat.ofName name with
    | .ok format => (format, [])
    | .error _ => (.json, [.formatUnknown name])

/-- The level of the log that the arguments ask for, the settings' own if they ask for none
(specification, § E1.2). -/
def levelUnder (invocation : Invocation) (settings : Settings) : LogLevel :=
  if invocation.veryVerbose then .trace
  else if invocation.verbose then .debug
  else settings.log.level

/-- The settings under the arguments. Arguments are not checked, but none can make settings
senseless. -/
def underArguments (invocation : Invocation) (settings : Settings) : Settings × List Notice :=
  let (format, notices) := settings.formatUnder invocation
  ({ settings with
      catalog := { settings.catalog with
        grammarDirectory := invocation.grammarDirectory.getD settings.catalog.grammarDirectory }
      display := { settings.display with
        format := format
        colors := settings.display.colors && !invocation.colorless }
      log := { settings.log with level := settings.levelUnder invocation } },
    notices)

/-- The settings in force, with what is to be reported about them (specification, § E1.3,
precedence). -/
def inForce (host : Host) (overrides : Overrides) (invocation : Invocation) :
    Except Failure (Settings × List Notice) := do
  let settings ← load host invocation.settingsFile
  let (settings, reported) := settings.underOverrides host.home overrides
  let (settings, notices) := settings.underArguments invocation
  return (settings, reported ++ notices)

/-- The engine over the catalog that the settings describe. Documents are indexed here, and read
when they are needed. -/
def openEngine (settings : Settings) (files : Files) (probe : Probe World) :
    Except Failure (Engine World) := do
  let source ← Source.openDirectory settings.catalog.grammarDirectory files
  return .ofCatalog World.files {
    source := source
    generators := settings.generators.entries.map fun (name, generator) =>
      (name, .ofCommand generator.command generator.args)
    locator := match settings.catalog.locationDirectory with
      | some directory => .ofDirectory directory
      | none => .unsupported
    probe := probe }

end Settings

/-! ## Answers -/

namespace Program

/-- The name and the version. -/
def versionText : String := "shellsuggest 0.1.0"

/-- What greets a user of the prompt. -/
def greeting : String :=
  versionText ++ " - Tab to complete, Enter to list suggestions, Ctrl-D to quit"

/-- How the program is used. -/
def helpText : String :=
  "Usage: shellsuggest [OPTIONS] [suggest <INPUT> | specs [PREFIX] | repl | " ++
    "completion <SHELL> | config]"

/-- Where the program runs, and how it runs commands: a probe is given a
directory and a time in milliseconds. -/
structure Setting where
  host : Host
  /-- The values of environment variables. -/
  environment : String → Option String
  probe : (directory : String) → (millis : Nat) → Probe World

/-- What the program leaves behind. -/
structure Outcome where
  /-- The text printed. -/
  printed : String := ""
  /-- The lines reported besides it. -/
  reported : List String := []
  code : Nat := 0
deriving DecidableEq, Repr, Inhabited

/-- Lines as they are printed. -/
def printLines (lines : List String) : String := String.join (lines.map (· ++ "\n"))

/-- Suggestions for a line, as they are printed; empty if there are none (specification, § E1.4).
Each use begins with a memory of its own. -/
def suggest (setting : Setting) (settings : Settings) (line directory : String) (shell : Shell) :
    Except Failure String := do
  let files := setting.host.files
  let engine ← settings.openEngine files (setting.probe directory settings.engine.probeMillis)
  let memory := engine.catalog.initialMemory { files := files }
  match ← ((engine.suggest setting.host.home shell directory line).run memory).1 with
  | none => return ""
  | some suggestions => return settings.display.formatter.render suggestions ++ "\n"

/-- The commands of the catalog that begin with a text, in the order of the catalog. None of them is
loaded. -/
def list (setting : Setting) (settings : Settings) (beginning : String) :
    Except Failure (List String) := do
  let source ← Source.openDirectory settings.catalog.grammarDirectory setting.host.files
  return (source.keys.filter Catalog.isRootKey).filter (Text.beginsWith beginning)

/-- The settings file that counts, whether it exists or not. -/
def settingsPath (host : Host) (invocation : Invocation) : String :=
  invocation.settingsFile.getD (Settings.defaultPath host.home)

/-- The directories whose documents a use may load. They hold the catalog and what generators
locate. -/
def documentDirectories (settings : Settings) : List String :=
  settings.catalog.grammarDirectory :: settings.catalog.locationDirectory.toList

/-- The directories whose entries a use may suggest: where the line is typed,
and where the word being typed leads. -/
def listedDirectories (host : Host) (settings : Settings) (invocation : Invocation) :
    List String :=
  match invocation.action with
  | .suggest line directory shell =>
    let here := directory.getD host.files.workingDirectory
    let shell := shell.getD settings.engine.defaultShell
    match TypedLine.ofLine? shell line with
    | some typed => [here, Path.join here (PathReading.candidate host.home shell typed.current.text)]
    | none => [here]
  | _ => []

/-- What a check of the settings file finds. The environment and the arguments play no part. -/
def checkLines (host : Host) (path : String) : List String :=
  ("Validating configuration file: " ++ path) ::
    if !host.files.contains path then ["❌ Configuration file does not exist"]
    else
      match Settings.ofFile host path with
      | .error failure => ["❌ Failed to load configuration: " ++ failure.message]
      | .ok settings =>
        match settings.validate with
        | .error failure => ["❌ Configuration validation failed: " ++ failure.message]
        | .ok _ => ["✅ Configuration is valid"]

/-- The settings in force, as they are shown: in the form in which a file states them. -/
def showLines (settings : Settings) (path : String) : List String :=
  ["Configuration file: " ++ path, "", "=== Effective Configuration ===", "", settings.toText]

/-- What the prompt says when there is no terminal to edit lines on. -/
def terminalMissing : Failure := .file (.other "No such device or address (os error 6)")

/-- What is printed, and the failure that ends the program, if one does. A prompt needs a terminal,
which is not there. -/
def perform (setting : Setting) (settings : Settings) (invocation : Invocation) :
    String × Except Failure Unit :=
  let host := setting.host
  let finish (result : Except Failure String) : String × Except Failure Unit :=
    match result with
    | .ok text => (text, .ok ())
    | .error failure => ("", .error failure)
  match invocation.action with
  | .suggest line directory shell =>
    finish (suggest setting settings line (directory.getD host.files.workingDirectory)
      (shell.getD settings.engine.defaultShell))
  | .list beginning => finish ((list setting settings beginning).map printLines)
  | .script shell => finish ((ScriptShell.ofName shell).map ScriptShell.addition)
  | .settings shown checked =>
    let path := settingsPath host invocation
    (printLines ((if checked then checkLines host path else []) ++
      if shown then showLines settings path else []), .ok ())
  | .prompt =>
    match settings.openEngine host.files
        (setting.probe host.files.workingDirectory settings.engine.probeMillis) with
    | .error failure => ("", .error failure)
    | .ok _ => (printLines [greeting], .error terminalMissing)

/-- The line that reports what ended the program. -/
def failureLine (failure : Failure) : String := "Error: " ++ failure.message

/-- A use of the program with these arguments. The code is 0 for what was done, 1 for a failure and
2 for arguments that are not understood. -/
def run (setting : Setting) (arguments : List String) : Outcome :=
  match CommandLine.read arguments with
  | .error .help => { printed := printLines [helpText] }
  | .error .version => { printed := printLines [versionText] }
  | .error .usage => { reported := [helpText], code := 2 }
  | .ok invocation =>
    match Settings.inForce setting.host (.ofEnvironment setting.environment) invocation with
    | .error failure => { reported := [failureLine failure], code := 1 }
    | .ok (settings, notices) =>
      let reported := notices.flatMap Notice.lines
      match perform setting settings invocation with
      | (text, .ok _) => { printed := text, reported := reported }
      | (text, .error failure) =>
        { printed := text, reported := reported ++ [failureLine failure], code := 1 }

end Program

end CommandCompletion
