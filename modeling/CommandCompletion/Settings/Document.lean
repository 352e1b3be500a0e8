/-
Settings as a TOML document, and in a file.

A section or a key that the document leaves out has its default, and keys that
no setting has are passed over. What is written states every setting; the
directory of locations and the generators are left out where there are none.
-/
import CommandCompletion.Files.Change
import CommandCompletion.Settings
import CommandCompletion.Toml.Decoding
import CommandCompletion.Toml.Writing

set_option autoImplicit false

namespace CommandCompletion

open Toml (Value Members Statement fields?)
open Named (defaulting)

/-! ## Reading -/

/-- The engine's section. A number has to be an integer that is not negative, and a shell has to be
named exactly. -/
def EngineSettings.ofValue? (value : Value) : Option EngineSettings := do
  let fields ← fields? ["probe_timeout_ms", "default_shell"] value
  return {
    probeMillis := ← defaulting defaultProbeMillis Value.nat? (fields "probe_timeout_ms")
    defaultShell :=
      ← defaulting .bash (Value.choice? Shell.ofExactName?) (fields "default_shell") }

/-- The catalog's section. The directory of grammars has a default that depends on the user. -/
def CatalogSettings.ofValue? (home : Option String) (value : Value) : Option CatalogSettings := do
  let fields ← fields? ["spec_dir", "location_dir"] value
  return {
    grammarDirectory :=
      ← defaulting (Settings.defaultGrammarDirectory home) Value.text? (fields "spec_dir")
    locationDirectory :=
      ← defaulting none (fun value => value.text?.map some) (fields "location_dir") }

/-- The display's section, with a format named exactly as it is shown. -/
def DisplaySettings.ofValue? (value : Value) : Option DisplaySettings := do
  let fields ← fields? ["format", "color_output", "max_suggestions"] value
  return {
    format := ← defaulting .json (Value.choice? OutputFormat.ofExactName?) (fields "format")
    colors := ← defaulting true Value.bool? (fields "color_output")
    maxSuggestions := ← defaulting 50 Value.nat? (fields "max_suggestions") }

/-- The log's section. A level has one name here; other names are for the environment. -/
def LogSettings.ofValue? (value : Value) : Option LogSettings := do
  let fields ← fields? ["level", "timestamps"] value
  return {
    level := ← defaulting .warn (Value.choice? LogLevel.ofExactName?) (fields "level")
    timestamps := ← defaulting false Value.bool? (fields "timestamps") }

/-- A generator's section. The command has to be stated, and may be empty: that is for the check of
the settings to find. -/
def CommandSettings.ofValue? (value : Value) : Option CommandSettings := do
  let fields ← fields? ["command", "args"] value
  return {
    command := ← (← fields "command").text?
    args := ← defaulting [] Value.texts? (fields "args") }

/-- The sections of the generators. One that cannot be read makes the document unreadable. -/
def Settings.generatorsOf? : Value → Option (NameMap CommandSettings)
  | .table _ members => do
    let entries ← members.mapM fun (name, value) => do
      return (name, ← CommandSettings.ofValue? value)
    return .ofList entries
  | _ => none

namespace Settings

/-- The settings that a document states, with defaults for all it leaves out (specification, §
E1.3). -/
def ofMembers? (home : Option String) (members : Members) : Option Settings := do
  let fields ← fields? ["engine", "catalog", "display", "logging", "generators"]
    (.table .stated members)
  return {
    engine := ← defaulting {} EngineSettings.ofValue? (fields "engine")
    catalog := ← defaulting { grammarDirectory := defaultGrammarDirectory home }
      (CatalogSettings.ofValue? home) (fields "catalog")
    display := ← defaulting {} DisplaySettings.ofValue? (fields "display")
    log := ← defaulting {} LogSettings.ofValue? (fields "logging")
    generators := ← defaulting ∅ generatorsOf? (fields "generators") }

/-- The settings that a text states. Where it goes wrong is not told apart. -/
def ofText (home : Option String) (text : String) : Except Failure Settings :=
  match (Toml.parse? text).bind (ofMembers? home) with
  | some settings => .ok settings
  | none => .error (.settingsMalformed "not a settings document")

/-! ## Writing -/

/-- A text that is left out if there is none. -/
def assignText? (key : String) (text : Option String) : List Statement :=
  text.toList.map fun text => .assignment [] key (.text text)

/-- The section of a generator, below a header that names it. The arguments are stated even if there
are none. -/
def generatorStatements : String × CommandSettings → List Statement
  | (name, generator) => [
    .header ["generators"] name,
    .assignment [] "command" (.text generator.command),
    .assignment [] "args" (.array .closed (generator.args.map .text))]

/-- The document that states the settings. Every setting has a line, so a file that was saved does
not change its meaning when defaults change. -/
def statements (settings : Settings) : List Statement :=
  [ .header [] "engine",
    .assignment [] "probe_timeout_ms" (.integer settings.engine.probeMillis),
    .assignment [] "default_shell" (.text settings.engine.defaultShell.name),
    .header [] "catalog",
    .assignment [] "spec_dir" (.text settings.catalog.grammarDirectory)] ++
  assignText? "location_dir" settings.catalog.locationDirectory ++
  [ .header [] "display",
    .assignment [] "format" (.text settings.display.format.name),
    .assignment [] "color_output" (.bool settings.display.colors),
    .assignment [] "max_suggestions" (.integer settings.display.maxSuggestions),
    .header [] "logging",
    .assignment [] "level" (.text settings.log.level.name),
    .assignment [] "timestamps" (.bool settings.log.timestamps)] ++
  settings.generators.entries.flatMap generatorStatements

/-- The text of the document that states the settings. There is one for all settings. -/
def toText (settings : Settings) : String := String.ofList (Toml.write settings.statements)

/-! ## In a file -/

/-- The settings in a file. One that is missing is reported as missing settings, other trouble as
trouble with a file. -/
def ofFile (host : Host) (path : String) : Except Failure Settings :=
  match host.files.readText path with
  | .ok text => ofText host.home text
  | .error .notFound => .error (.settingsMissing path)
  | .error cause => .error (.file cause)

/-- The settings in the file that is asked for, or else in the default file. The defaults stand for
a default file that does not exist (specification, § E1.3). -/
def load (host : Host) : (path : Option String) → Except Failure Settings
  | some path => ofFile host path
  | none =>
    let path := defaultPath host.home
    if host.files.contains path then ofFile host path else .ok (default host.home)

/-- The files with the settings saved in one, the directories that lead to it
made where they are missing. -/
def save (settings : Settings) (path : String) (files : Files) : Except Failure Files := do
  let files ← match (Path.parent? path).filter fun parent => !parent.isEmpty with
    | some parent => (files.makeFolders parent).mapError .file
    | none => pure files
  (files.writeText path settings.toText).mapError .file

end Settings

end CommandCompletion
