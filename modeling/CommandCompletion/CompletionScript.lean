/-
Completion scripts: how a shell learns to complete the program's own command
line.

A script is generated from the declared arguments. In three shells something is
appended to it, so that the argument of `specs` completes to the commands of the
catalog. Only what is appended is held here.
-/
import CommandCompletion.Failure
import CommandCompletion.Text.Lowercase

set_option autoImplicit false

namespace CommandCompletion

/-- The shells that a completion script can be made for. -/
inductive ScriptShell where
  | bash | zsh | fish | powershell | elvish
deriving DecidableEq, Repr, Inhabited

namespace ScriptShell

/-- The shell of this name in any case; `pwsh` is another name of
`powershell`. -/
def ofName (text : String) : Except Failure ScriptShell :=
  match Text.lower text with
  | "bash" => .ok bash
  | "zsh" => .ok zsh
  | "fish" => .ok fish
  | "powershell" | "pwsh" => .ok powershell
  | "elvish" => .ok elvish
  | _ => .error (.settingInvalid "shell" text)

/-- The lines that are appended to the generated script. -/
def addedLines : ScriptShell → List String
  | bash => [
    "_shellsuggest_specs() \x7b",
    "    local cur=\"$\x7bCOMP_WORDS[COMP_CWORD]\x7d\"",
    "    if [[ \"$\x7bCOMP_WORDS[1]\x7d\" == \"specs\" && $COMP_CWORD -eq 2 ]]; then",
    "        COMPREPLY=($(compgen -W \"$(shellsuggest specs 2>/dev/null)\" -- \"$cur\"))",
    "        return 0",
    "    fi",
    "    _shellsuggest \"$@\"",
    "\x7d",
    "complete -F _shellsuggest_specs -o bashdefault -o default shellsuggest"]
  | zsh => [
    "_shellsuggest_specs() \x7b",
    "    if [[ $\x7bwords[2]\x7d == \"specs\" && $CURRENT -eq 3 ]]; then",
    "        local -a names",
    "        names=($(shellsuggest specs 2>/dev/null))",
    "        _describe 'commands' names",
    "        return 0",
    "    fi",
    "    _shellsuggest \"$@\"",
    "\x7d",
    "compdef _shellsuggest_specs shellsuggest"]
  | fish => [
    "complete -c shellsuggest -n \"__fish_seen_subcommand_from specs\" -f -a " ++
      "\"(shellsuggest specs 2>/dev/null)\" -d \"Catalog command\""]
  | powershell | elvish => []

/-- What is appended to the generated script, parted from it by a line end. -/
def addition (shell : ScriptShell) : String :=
  match shell.addedLines with
  | [] => ""
  | lines => "\n" ++ String.join (lines.map (· ++ "\n"))

end ScriptShell

end CommandCompletion
