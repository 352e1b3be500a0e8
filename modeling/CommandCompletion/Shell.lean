/-
Shells, as far as reading a command line needs to know them: which characters
separate the components of a path, which one takes the special meaning from the
next, and what quotes do.
-/
import CommandCompletion.Text.Bytes
import CommandCompletion.Text.Lowercase
import CommandCompletion.Failure

set_option autoImplicit false

namespace CommandCompletion

/-- The shells whose command lines can be read (specification, § E2.5). -/
inductive Shell where
  | bash | zsh | fish | pwsh | powershell | cmd | nu | xonsh
deriving DecidableEq, Repr

namespace Shell

instance : Inhabited Shell := ⟨bash⟩

/-! ## Names -/

/-- The name used on the command line and in settings. -/
def name : Shell → String
  | bash => "bash"
  | zsh => "zsh"
  | fish => "fish"
  | pwsh => "pwsh"
  | powershell => "powershell"
  | cmd => "cmd"
  | nu => "nu"
  | xonsh => "xonsh"

/-- Every shell, in the order of their declaration, for looking one up by its name. -/
def all : List Shell := [bash, zsh, fish, pwsh, powershell, cmd, nu, xonsh]

/-- The shell whose `name` is exactly this, as settings files and the command line state it. -/
def ofExactName? (text : String) : Option Shell := all.find? fun shell => shell.name == text

/-- The shell of this name in any case; `nushell` is another name of `nu`. The environment may name
one so. -/
def ofName (text : String) : Except Failure Shell :=
  let lowered := Text.lower text
  match ofExactName? lowered with
  | some shell => .ok shell
  | none => if lowered = "nushell" then .ok nu else .error (.settingInvalid "shell" lowered)

/-! ## Paths -/

/-- The characters that separate path components, the preferred one first. A backslash separates in
the shells of one system only, and escapes in the others. -/
def separators : Shell → List Char
  | cmd => ['\\', '/']
  | pwsh | powershell => ['/', '\\']
  | _ => ['/']

/-- Separates path components, whether it is the preferred separator or not. -/
def isSeparator (shell : Shell) (c : Char) : Bool := shell.separators.contains c

/-- The separator put after a suggested directory, so that typing can go on below it. -/
def preferredSeparator : Shell → Char
  | cmd => '\\'
  | _ => '/'

/-- The preferred separator is one of the separators, so what is put after a directory is read back
as the end of its name. -/
theorem isSeparator_preferredSeparator (shell : Shell) :
    shell.isSeparator shell.preferredSeparator = true := by
  cases shell <;> decide

/-- The part of a path after its last separator: what is being typed of it. -/
def baseName (shell : Shell) (text : String) : String :=
  String.ofList (Text.afterLast shell.isSeparator text.toList)

/-- The part of a path up to and including its last separator: what stays when the rest is replaced.
-/
def directoryPart (shell : Shell) (text : String) : String :=
  String.ofList (Text.uptoLast shell.isSeparator text.toList)

/-- A path is its directory part followed by its base name. Nothing is between them, since the
separator belongs to the first. -/
theorem directoryPart_append_baseName (shell : Shell) (text : String) :
    shell.directoryPart text ++ shell.baseName text = text := by
  apply String.toList_injective
  simp [directoryPart, baseName, Text.uptoLast_append_afterLast]

/-! ## Quoting -/

/-- Makes the next character literal, outside quotes (specification, § E2.5, tokenizer). -/
def escapeChar : Shell → Char
  | cmd => '^'
  | pwsh | powershell => Char.ofNat 0x60
  | _ => '\\'

/-- Whether the escape character keeps its meaning between double quotes. -/
def escapesInDoubleQuotes (shell : Shell) : Bool := shell != cmd

/-- Whether single quotes quote. Where they do not, they are characters like any other. -/
def hasSingleQuotes (shell : Shell) : Bool := shell != cmd

/-- Opens a quoted part of a word; the same character closes it. -/
def isQuote (shell : Shell) (c : Char) : Bool := c == '"' || (c == '\'' && shell.hasSingleQuotes)

end Shell

end CommandCompletion
