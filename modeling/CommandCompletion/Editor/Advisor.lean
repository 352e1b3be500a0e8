/-
Asking for suggestions from within a line editor.

An editor calls back for completions and for hints and waits for the answer. What
the callbacks have in common is whom they ask, and that they never fail: where
nobody can be asked, or the engine fails, there is nothing to suggest.
-/
import CommandCompletion.Engine

set_option autoImplicit false

namespace CommandCompletion.Editor

/-- Whom the callbacks of an editor ask, and on behalf of which shell in which directory. Both stay
the same as long as an editor is open. -/
structure Advisor (σ : Type) where
  engine : Engine σ
  home : Option String := none
  shell : Shell
  cwd : String

/-- Suggestions for what was typed. An engine can be asked only where there is a `runtime` to wait
in; that it failed is not shown to an editor. -/
def Advisor.suggestions {σ : Type} (advisor : Advisor σ) (runtime : Bool) (typed : String) :
    Recall σ (Option Suggestions) := do
  if runtime then
    match ← advisor.engine.suggest advisor.home advisor.shell advisor.cwd typed with
    | .ok suggestions => return suggestions
    | .error _ => return none
  else return none

end CommandCompletion.Editor
