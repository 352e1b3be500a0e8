/-
Which origin of a setting counts.

The directory of grammars, the level of the log and the default shell can be set
in several places: by a flag, by an environment variable, in the settings file,
and each has a default. What comes first in this order is meant to count
(`firstOf`), each setting on its own.

A settings file is checked as a whole, and overrides touch nothing that the check
looks at (`validate_override`). So there are two ways in which a setting misses
what its own variable says, and `inForce_precedence` shows that there are no
others: settings that make no sense are replaced by the defaults, the values of
variables included, and a level that is none ends the overrides before the
shell's turn comes. Flags come after both, so they always count.
-/
import CommandCompletion.Program

set_option autoImplicit false

namespace CommandCompletion.Settings

/-! ## Origins -/

/-- The value of the first origin that has one: a flag, an environment variable, a settings file
that makes sense, the default (specification, § E1.3). -/
def firstOf {α : Type} (flag? environment? : Option α) (sound : Bool) (filed default : α) : α :=
  (flag? <|> environment?).getD (if sound then filed else default)

/-- The value that an environment variable gives, if it is not empty and can be read. A variable
that cannot be read is as good as none. -/
def readVariable? {α : Type} (lookup : String → Option String) (name : String)
    (read : String → Except Failure α) : Option α :=
  ((lookup name).filter fun text => !text.isEmpty).bind fun text => (read text).toOption

/-- The directory of grammars that the environment asks for; any text is one. -/
def directoryVariable? (lookup : String → Option String) : Option String :=
  readVariable? lookup "SHELLSUGGEST_SPEC_DIR" .ok

/-- The level of the log that the environment asks for. -/
def levelVariable? (lookup : String → Option String) : Option LogLevel :=
  readVariable? lookup "SHELLSUGGEST_LOG_LEVEL" LogLevel.ofName

/-- The shell that the environment asks for. -/
def shellVariable? (lookup : String → Option String) : Option Shell :=
  readVariable? lookup "SHELLSUGGEST_SHELL" Shell.ofName

/-- The level of the log that the flags ask for. -/
def levelFlag? (invocation : Invocation) : Option LogLevel :=
  if invocation.veryVerbose then some .trace
  else if invocation.verbose then some .debug
  else none

/-- The settings pass the check, so they make sense as a whole. -/
def isSound (settings : Settings) : Bool := settings.validate.isOk

/-- The environment asks for a level of the log, but it is none. What is overridden after it is then
not reached. -/
def levelUnreadable (overrides : Overrides) : Bool :=
  overrides.logLevel.any fun text => !(LogLevel.ofName text).isOk

variable {host : Host} {invocation : Invocation} {overrides : Overrides}
variable {settings file : Settings} {home : Option String}

/-! ## Overrides -/

/-- A change that can be made is made, and the others go on from there. -/
theorem changeInOrder_of_ok {change : Settings → Except Failure Settings}
    {changes : List (Settings → Except Failure Settings)} {changed : Settings}
    (h : change settings = .ok changed) :
    changeInOrder (change :: changes) settings = changeInOrder changes changed := by
  rw [changeInOrder, h]

/-- A change that fails leaves the settings as they are and ends the changes. -/
theorem changeInOrder_of_error {change : Settings → Except Failure Settings}
    {changes : List (Settings → Except Failure Settings)} {failure : Failure}
    (h : change settings = .error failure) :
    changeInOrder (change :: changes) settings = (settings, .error failure) := by
  rw [changeInOrder, h]

/-- What the name of a shell makes of the settings, where nothing else is overridden: the shell is
changed if the name is one, and nothing is if it is none. -/
theorem override_shell (shell? : Option String) (settings : Settings) :
    (override { defaultShell := shell? } settings).1 = {
      settings with
      engine := { settings.engine with
        defaultShell := (shell?.bind fun text => (Shell.ofName text).toOption).getD
          settings.engine.defaultShell } } := by
  unfold override
  rw [changeInOrder_of_ok rfl, changeInOrder_of_ok rfl]
  cases shell? with
  | none => rfl
  | some text =>
    cases hread : Shell.ofName text with
    | error failure =>
      rw [changeInOrder_of_error (show _ = Except.error failure by simp only [hread]; rfl),
        Option.bind_some, hread]
      rfl
    | ok shell =>
      rw [changeInOrder_of_ok (by simp only [hread]; rfl), Option.bind_some, hread]
      rfl

/-- What the overrides make of the settings, in one expression for each of the three. The shell
comes last, and is not looked at after a level that is none. -/
theorem override_eq (overrides : Overrides) (settings : Settings) :
    (override overrides settings).1 = {
      settings with
      catalog := { settings.catalog with
        grammarDirectory := overrides.grammarDirectory.getD settings.catalog.grammarDirectory }
      log := { settings.log with
        level := (overrides.logLevel.bind fun text => (LogLevel.ofName text).toOption).getD
          settings.log.level }
      engine := { settings.engine with
        defaultShell :=
          (if levelUnreadable overrides then none
            else overrides.defaultShell.bind fun text => (Shell.ofName text).toOption).getD
          settings.engine.defaultShell } } := by
  obtain ⟨directory?, level?, shell?⟩ := overrides
  unfold override levelUnreadable
  rw [changeInOrder_of_ok (show _ = Except.ok { settings with catalog := { settings.catalog with
    grammarDirectory := directory?.getD settings.catalog.grammarDirectory } } by
      cases directory? <;> rfl)]
  -- The directory is always taken; the level decides whether the shell's turn comes.
  cases level? with
  | none => exact override_shell shell? _
  | some text =>
    cases hlevel : LogLevel.ofName text with
    | error failure =>
      rw [changeInOrder_of_error (show _ = Except.error failure by simp only [hlevel]; rfl),
        Option.any_some, Option.bind_some, hlevel]
      rfl
    | ok level =>
      rw [changeInOrder_of_ok (by simp only [hlevel]; rfl), Option.any_some, Option.bind_some, hlevel]
      exact override_shell shell? _

/-- Overrides touch nothing that the check looks at, so settings pass it with them or without. -/
theorem validate_override (overrides : Overrides) (settings : Settings) :
    (override overrides settings).1.validate = settings.validate := by
  rw [override_eq]
  rfl

/-! ## Settings in force -/

/-- The variables are listened to only if the file makes sense; otherwise the defaults take the
place of everything that was set. -/
theorem underOverrides_eq (home : Option String) (overrides : Overrides) (file : Settings) :
    (underOverrides home overrides file).1 =
      if file.isSound then (override overrides file).1 else default home := by
  have hvalidate := validate_override overrides file
  unfold underOverrides isSound
  -- The check is made after the variables were taken in, and does not notice them.
  cases hoverride : override overrides file with
  | mk overridden result =>
    rw [hoverride] at hvalidate
    dsimp only at hvalidate ⊢
    rw [hvalidate]
    cases file.validate <;> rfl

/-- Once the file is read, settings are in force, whatever the variables and the flags say. What was
wrong with them is only noticed. -/
theorem exists_inForce (overrides : Overrides)
    (hfile : load host invocation.settingsFile = .ok file) :
    ∃ notices, inForce host overrides invocation =
      .ok (((underOverrides host.home overrides file).1.underArguments invocation).1, notices) := by
  unfold inForce
  rw [hfile]
  exact ⟨_, rfl⟩

/-- A flag counts, or else what the environment says, where it is listened to. Where it is not, its
value is missed unless it happens to be the one that counts instead. -/
theorem getD_eq_firstOf_iff {α : Type} {flag? environment? : Option α} {sound : Bool}
    {filed default : α} (heard : Bool) :
    flag?.getD ((if heard then environment? else none).getD (if sound then filed else default)) =
        firstOf flag? environment? sound filed default ↔
      (flag? = none → heard = false → ∀ value, environment? = some value →
        value = if sound then filed else default) := by
  unfold firstOf
  cases flag? with
  | some value => simp
  | none =>
    cases heard with
    | true => simp
    | false =>
      cases environment? with
      | none => simp
      | some value => simp [eq_comm]

/-- The same where the environment is listened to if the file makes sense. -/
theorem getD_eq_firstOf_iff_of_sound {α : Type} {flag? environment? : Option α} {sound : Bool}
    {filed default : α} :
    flag?.getD ((if sound then environment? else none).getD (if sound then filed else default)) =
        firstOf flag? environment? sound filed default ↔
      (flag? = none → sound = false → ∀ value, environment? = some value → value = default) := by
  rw [getD_eq_firstOf_iff]
  cases sound <;> simp

section Values

variable {lookup : String → Option String}

/-- What is in force is what the file and the variables make of the settings,
under the flags. -/
def resulting (home : Option String) (overrides : Overrides) (invocation : Invocation)
    (file : Settings) : Settings :=
  ((underOverrides home overrides file).1.underArguments invocation).1

/-- The directory of grammars as it comes out: the flag, or the variable of a file that makes sense,
or what the file or the defaults say. -/
theorem directory_resulting :
    (resulting home (.ofEnvironment lookup) invocation file).catalog.grammarDirectory =
      invocation.grammarDirectory.getD
        ((if file.isSound then directoryVariable? lookup else none).getD
          (if file.isSound then file.catalog.grammarDirectory
            else (default home).catalog.grammarDirectory)) := by
  have hread : directoryVariable? lookup = (Overrides.ofEnvironment lookup).grammarDirectory := by
    exact Option.bind_fun_some _
  show invocation.grammarDirectory.getD (underOverrides home _ file).1.catalog.grammarDirectory = _
  rw [underOverrides_eq, hread]
  cases file.isSound with
  | true =>
    simp only [if_true]
    rw [override_eq]
  | false => rfl

/-- The level of the log comes out in the same way; two flags stand for it. -/
theorem level_resulting :
    (resulting home (.ofEnvironment lookup) invocation file).log.level =
      (levelFlag? invocation).getD
        ((if file.isSound then levelVariable? lookup else none).getD
          (if file.isSound then file.log.level else (default home).log.level)) := by
  -- The stronger of the two flags counts.
  have hflag : ∀ settings : Settings, settings.levelUnder invocation =
      (levelFlag? invocation).getD settings.log.level := by
    intro settings
    unfold levelUnder levelFlag?
    split
    · rfl
    · split <;> rfl
  show levelUnder invocation (underOverrides home _ file).1 = _
  rw [hflag, underOverrides_eq]
  cases file.isSound with
  | true =>
    simp only [if_true]
    rw [override_eq]
    rfl
  | false => rfl

/-- The default shell has no flag, and its variable is listened to only if the level can be read
too. -/
theorem shell_resulting :
    (resulting home (.ofEnvironment lookup) invocation file).engine.defaultShell =
      (if file.isSound && !levelUnreadable (.ofEnvironment lookup) then shellVariable? lookup
        else none).getD
        (if file.isSound then file.engine.defaultShell else (default home).engine.defaultShell) := by
  show (underOverrides home _ file).1.engine.defaultShell = _
  rw [underOverrides_eq]
  cases file.isSound with
  | true =>
    simp only [if_true, Bool.true_and]
    rw [override_eq]
    cases levelUnreadable (Overrides.ofEnvironment lookup) <;> rfl
  | false => rfl

end Values

/-- **When each setting has the value of its first origin** (specification, § E1.3). Once the file
is read, settings are in force. The directory of grammars and the level of the log are as they are
meant to be, unless the file makes no sense and there is no flag: then a variable is not listened
to. The default shell, for which there is no flag, misses its variable also when the variable for
the level is no level. Each of the three is computed first, and then compared with its first origin.
-/
theorem inForce_precedence (host : Host) (lookup : String → Option String)
    (invocation : Invocation) {file : Settings}
    (hfile : load host invocation.settingsFile = .ok file) :
    ∃ settings notices,
      inForce host (.ofEnvironment lookup) invocation = .ok (settings, notices) ∧
      (settings.catalog.grammarDirectory =
          firstOf invocation.grammarDirectory (directoryVariable? lookup) file.isSound
            file.catalog.grammarDirectory (default host.home).catalog.grammarDirectory ↔
        (invocation.grammarDirectory = none → file.isSound = false →
          ∀ directory, directoryVariable? lookup = some directory →
            directory = (default host.home).catalog.grammarDirectory)) ∧
      (settings.log.level =
          firstOf (levelFlag? invocation) (levelVariable? lookup) file.isSound
            file.log.level (default host.home).log.level ↔
        (levelFlag? invocation = none → file.isSound = false →
          ∀ level, levelVariable? lookup = some level →
            level = (default host.home).log.level)) ∧
      (settings.engine.defaultShell =
          firstOf none (shellVariable? lookup) file.isSound
            file.engine.defaultShell (default host.home).engine.defaultShell ↔
        (file.isSound = false ∨ levelUnreadable (.ofEnvironment lookup) = true →
          ∀ shell, shellVariable? lookup = some shell →
            shell = if file.isSound then file.engine.defaultShell
              else (default host.home).engine.defaultShell)) := by
  obtain ⟨notices, hinForce⟩ := exists_inForce (.ofEnvironment lookup) hfile
  refine ⟨resulting host.home (.ofEnvironment lookup) invocation file, notices, hinForce, ?_, ?_, ?_⟩
  · rw [directory_resulting, getD_eq_firstOf_iff_of_sound]
  · rw [level_resulting, getD_eq_firstOf_iff_of_sound]
  -- A setting without a flag is one whose flag is never given.
  · rw [shell_resulting, ← Option.getD_none (a := Option.getD _ _), getD_eq_firstOf_iff]
    have hheard : (file.isSound && !levelUnreadable (.ofEnvironment lookup)) = false ↔
        file.isSound = false ∨ levelUnreadable (.ofEnvironment lookup) = true := by
      rw [Bool.and_eq_false_iff, Bool.not_eq_false']
    rw [hheard]
    exact ⟨fun h => h rfl, fun h _ => h⟩

/-! A machine with a settings file, and variables that are set. -/

/-- A machine with this settings file and no other files. -/
def machineWith (text : String) : Host where
  files := { root := .folder [("settings.toml", .file text.toUTF8)] }

/-- A use that reads the settings file of the machine. -/
def plainUse : Invocation := { settingsFile := some "/settings.toml" }

/-- An environment in which these variables are set. -/
def environmentOf (assigned : List (String × String)) : String → Option String :=
  fun name => List.lookup name assigned

/-- States a shell and a level of the log, and makes sense. -/
def fishMachine : Host :=
  machineWith "[engine]\ndefault_shell = \"fish\"\n[logging]\nlevel = \"info\"\n"

/-- Sets every variable, the level in another spelling. -/
def fullEnvironment : String → Option String := environmentOf [
  ("SHELLSUGGEST_SPEC_DIR", "/specs"), ("SHELLSUGGEST_LOG_LEVEL", "WARNING"),
  ("SHELLSUGGEST_SHELL", "zsh")]

/-- What is found without the failures is what was found. -/
theorem eq_ok_of_toOption {α : Type} {result : Except Failure α} {value : α}
    (h : result.toOption = some value) : result = .ok value := by
  cases result with
  | error failure => cases h
  | ok found =>
    cases h
    rfl

/-- Where the file makes sense and the level is one, each setting comes from its
first origin: the directory and the shell from the environment, the level from a
flag. -/
theorem inForce_precedence_layered :
    load fishMachine (some "/settings.toml") = .ok { default none with
      engine := { defaultShell := .fish }
      log := { level := .info } } ∧
    ∃ settings notices,
      inForce fishMachine (.ofEnvironment fullEnvironment) { plainUse with verbose := true } =
        .ok (settings, notices) ∧
      settings.catalog.grammarDirectory = "/specs" ∧ settings.log.level = .debug ∧
      settings.engine.defaultShell = .zsh := by
  have hfile : load fishMachine (some "/settings.toml") = .ok { default none with
      engine := { defaultShell := .fish }
      log := { level := .info } } := eq_ok_of_toOption (by decide +kernel)
  refine ⟨hfile, ?_⟩
  obtain ⟨settings, notices, hinForce, hdirectory, hlevel, hshell⟩ :=
    inForce_precedence fishMachine fullEnvironment { plainUse with verbose := true } hfile
  refine ⟨settings, notices, hinForce, ?_, ?_, ?_⟩
  · rw [hdirectory.mpr fun _ hunsound => by revert hunsound; decide +kernel]
    decide +kernel
  · rw [hlevel.mpr fun hflag => by cases hflag]
    decide +kernel
  · rw [hshell.mpr fun hunheard => absurd hunheard (by decide +kernel)]
    decide +kernel

/-- A level that is none keeps the variable for the shell from being listened to,
and a file that makes no sense takes the directory that the environment asks for
with it. -/
theorem inForce_disregards_variables :
    (((inForce (machineWith "") (.ofEnvironment (environmentOf [
        ("SHELLSUGGEST_LOG_LEVEL", "loud"), ("SHELLSUGGEST_SHELL", "zsh")])) plainUse).toOption.map
          fun inForce => inForce.1.engine.defaultShell) = some .bash ∧
      ((load (machineWith "") (some "/settings.toml")).toOption.map fun file =>
        firstOf none (shellVariable? (environmentOf [
          ("SHELLSUGGEST_LOG_LEVEL", "loud"), ("SHELLSUGGEST_SHELL", "zsh")])) file.isSound
          file.engine.defaultShell (default none).engine.defaultShell) = some .zsh) ∧
    (((inForce (machineWith "[display]\nmax_suggestions = 0\n") (.ofEnvironment (environmentOf [
        ("SHELLSUGGEST_SPEC_DIR", "/specs")])) plainUse).toOption.map
          fun inForce => inForce.1.catalog.grammarDirectory) = some "./.shellsuggest/specs" ∧
      ((load (machineWith "[display]\nmax_suggestions = 0\n")
        (some "/settings.toml")).toOption.map fun file =>
          firstOf none (directoryVariable? (environmentOf [("SHELLSUGGEST_SPEC_DIR", "/specs")]))
            file.isSound file.catalog.grammarDirectory (default none).catalog.grammarDirectory) =
        some "/specs") := by
  decide +kernel

end CommandCompletion.Settings
