/-
Settings.

Every setting has a default, and a settings file states only what differs. On
top of the file come overrides from the environment, and a check that the values
make sense. What the command line says comes last and is not looked at here.
-/
import CommandCompletion.NameMap
import CommandCompletion.Path
import CommandCompletion.Probe
import CommandCompletion.Rendering
import CommandCompletion.Shell
import CommandCompletion.Text.Blank

set_option autoImplicit false

namespace CommandCompletion

/-! ## Levels of the log -/

/-- How much is written to the log, the least first. -/
inductive LogLevel where
  | error | warn | info | debug | trace
deriving DecidableEq, Repr, Inhabited

namespace LogLevel

/-- The name of a level, as files state it and users type it. -/
def name : LogLevel → String
  | error => "error"
  | warn => "warn"
  | info => "info"
  | debug => "debug"
  | trace => "trace"

/-- Every level. -/
def all : List LogLevel := [error, warn, info, debug, trace]

/-- The level whose `name` is exactly this, as a settings file has to write it. -/
def ofExactName? (text : String) : Option LogLevel := all.find? fun level => level.name == text

/-- The level of this name in any case; `warning` is another name of `warn`. The failure shows the
name as it was typed. -/
def ofName (text : String) : Except Failure LogLevel :=
  let lowered := Text.lower text
  match ofExactName? lowered with
  | some level => .ok level
  | none => if lowered = "warning" then .ok warn else .error (.settingInvalid "logging.level" text)

end LogLevel

/-! ## Sections -/

/-- How the engine works (specification, § E1.3, `engine`). -/
structure EngineSettings where
  /-- The time a probe is given, in milliseconds. -/
  probeMillis : Nat := defaultProbeMillis
  /-- The shell whose command lines are read unless another is asked for. -/
  defaultShell : Shell := .bash
deriving DecidableEq, Repr, Inhabited

/-- Where grammars are stored (specification, § E1.3, `catalog`). Only the first has to be known, as
it depends on the user. -/
structure CatalogSettings where
  grammarDirectory : String
  /-- Where the locations that generators answer lead; `none` for nowhere. -/
  locationDirectory : Option String := none
deriving DecidableEq, Repr, Inhabited

/-- How suggestions are shown (specification, § E1.3, `display`). -/
structure DisplaySettings where
  format : OutputFormat := .json
  colors : Bool := true
  maxSuggestions : Nat := 50
deriving DecidableEq, Repr, Inhabited

/-- What is written to the log (specification, § E1.3, `logging`). -/
structure LogSettings where
  level : LogLevel := .warn
  timestamps : Bool := false
deriving DecidableEq, Repr, Inhabited

/-- A command that a generator runs (specification, § E1.3, `generators`). -/
structure CommandSettings where
  command : String
  args : List String := []
deriving DecidableEq, Repr, Inhabited

/-- All settings, each with the value that is in force. What was stated and what is a default is not
told apart. -/
structure Settings where
  engine : EngineSettings := {}
  catalog : CatalogSettings
  display : DisplaySettings := {}
  log : LogSettings := {}
  /-- The generators that run a command, by name. -/
  generators : NameMap CommandSettings := ∅
deriving DecidableEq, Repr, Inhabited

/-- The formatter that the settings ask for, the limit on suggestions included. -/
def DisplaySettings.formatter (display : DisplaySettings) : Formatter where
  format := display.format
  colors := display.colors
  maxSuggestions := some display.maxSuggestions

namespace Settings

/-! ## Defaults -/

/-- The directory of everything that belongs to a user, in the home directory or, without one, in
the working directory. -/
def userDirectory (home : Option String) : String := Path.join (home.getD ".") ".shellsuggest"

/-- The file that is read unless another is asked for (specification, § E1.3). -/
def defaultPath (home : Option String) : String := Path.join (userDirectory home) "config.toml"

/-- The directory of grammars, unless the settings name another. -/
def defaultGrammarDirectory (home : Option String) : String :=
  Path.join (userDirectory home) "specs"

/-- The settings of a user without a settings file. Only the directory of grammars depends on who it
is. -/
def default (home : Option String) : Settings where
  catalog := { grammarDirectory := defaultGrammarDirectory home }

/-! ## Overrides -/

/-- Values that the environment puts in place of settings, as they are typed: whether they make
sense is seen when they are put there. -/
structure Overrides where
  grammarDirectory : Option String := none
  logLevel : Option String := none
  defaultShell : Option String := none
deriving DecidableEq, Repr, Inhabited

/-- The overrides in an environment (specification, § E1.3); an empty variable counts as missing. -/
def Overrides.ofEnvironment (lookup : String → Option String) : Overrides where
  grammarDirectory := (lookup "SHELLSUGGEST_SPEC_DIR").filter fun value => !value.isEmpty
  logLevel := (lookup "SHELLSUGGEST_LOG_LEVEL").filter fun value => !value.isEmpty
  defaultShell := (lookup "SHELLSUGGEST_SHELL").filter fun value => !value.isEmpty

/-- Carries out changes one by one. The first that fails ends it; those before
it stay. -/
def changeInOrder : List (Settings → Except Failure Settings) → Settings →
    Settings × Except Failure Unit
  | [], settings => (settings, .ok ())
  | change :: changes, settings =>
    match change settings with
    | .ok settings => changeInOrder changes settings
    | .error failure => (settings, .error failure)

/-- The settings under overrides: first the directory of grammars, then the level of the log, then
the shell. What was changed before a failure stays changed. -/
def override (overrides : Overrides) : Settings → Settings × Except Failure Unit :=
  changeInOrder [
    fun settings => match overrides.grammarDirectory with
      | some directory =>
        .ok { settings with catalog := { settings.catalog with grammarDirectory := directory } }
      | none => .ok settings,
    -- A name that is no level leaves the shell alone too, as it comes later.
    fun settings => match overrides.logLevel with
      | some text => (LogLevel.ofName text).map fun level =>
        { settings with log := { settings.log with level := level } }
      | none => .ok settings,
    fun settings => match overrides.defaultShell with
      | some text => (Shell.ofName text).map fun shell =>
        { settings with engine := { settings.engine with defaultShell := shell } }
      | none => .ok settings]

/-! ## Checks -/

/-- The name of the first generator without a command, in the order of names. -/
def commandless? (settings : Settings) : Option String :=
  (settings.generators.entries.find? fun (_, generator) =>
    Text.isBlankText generator.command).map (·.1)

/-- Accepts settings that make sense (specification, § E1.3): a probe is given some time, every
generator has a command, and at least one suggestion is shown. Only the first thing that is wrong is
reported. -/
def validate (settings : Settings) : Except Failure Unit :=
  if settings.engine.probeMillis = 0 then .error (.settingInvalid "engine.probe_timeout_ms" "0")
  else
    match settings.commandless? with
    | some name => .error (.settingInvalid ("generators." ++ name ++ ".command") "")
    | none =>
      if settings.display.maxSuggestions = 0 then
        .error (.settingInvalid "display.max_suggestions" "0")
      else .ok ()

end Settings

end CommandCompletion
