/-
Settings that were saved are loaded again.

The text of settings is read back as the settings, and a file is read back as the text that
was written to it, so together they are all that saving is for (`Settings.load_save`).
Settings themselves can always be written: it is the files alone that may stand in the way.
-/
import CommandCompletion.Proofs.SavedFiles
import CommandCompletion.Proofs.WrittenSettings

set_option autoImplicit false

namespace CommandCompletion.Settings

/-- Saving fails for the files' sake, or it ends with the text being written. The folder that the
file is to stand in is made first, if the path names one, and that can fail as well. -/
theorem save_cases (settings : Settings) (path : String) (files : Files) :
    (∃ cause, settings.save path files = .error (.file cause)) ∨
      ∃ made files' : Files, made.writeText path settings.toText = .ok files' ∧
        settings.save path files = .ok files' := by
  -- Whether a folder had to be made or not, what remains is to write the text.
  have written : ∀ made : Files,
      settings.save path files = (made.writeText path settings.toText).mapError .file →
      (∃ cause, settings.save path files = .error (.file cause)) ∨
        ∃ made files' : Files, made.writeText path settings.toText = .ok files' ∧
          settings.save path files = .ok files' := by
    intro made hsave
    cases hwritten : made.writeText path settings.toText with
    | error cause =>
      rw [hwritten] at hsave
      exact .inl ⟨cause, hsave⟩
    | ok files' =>
      rw [hwritten] at hsave
      exact .inr ⟨made, files', hwritten, hsave⟩
  -- A path without a folder, or directly under the current one, needs none to be made.
  cases hparent : (Path.parent? path).filter fun parent => !parent.isEmpty with
  | none =>
    refine written files ?_
    unfold save
    rw [hparent]
    rfl
  | some parent =>
    cases hmade : files.makeFolders parent with
    | error cause =>
      refine .inl ⟨cause, ?_⟩
      unfold save
      rw [hparent]
      dsimp only
      rw [hmade]
      rfl
    | ok made =>
      refine written made ?_
      unfold save
      rw [hparent]
      dsimp only
      rw [hmade]
      rfl

/-- **Settings survive being written** (specification, § E1.3). Their text is read as the same
settings, in a document as well as in the file that they are saved in; and nothing but the files can
keep them from being saved. The first is the round trip of the text (`ofText_toText`), the second
needs besides that a file is read as it was written (`Files.readText_of_writeText`). Numbers have to
fit the word they are kept in, as every value that was read from a file does. -/
theorem load_save {settings : Settings} (h : settings.WordSized) (home : Option String) :
    ofText home settings.toText = .ok settings ∧
    (∀ path files files', settings.save path files = .ok files' →
      load { files := files', home := home } (some path) = .ok settings) ∧
    ∀ path files failure, settings.save path files = .error failure →
      ∃ cause, failure = .file cause := by
  have htext := ofText_toText home h
  refine ⟨htext, fun path files files' hsave => ?_, fun path files failure hsave => ?_⟩
  -- Nothing was saved if saving failed; otherwise the text was written, and is read as it was.
  · obtain ⟨cause, herror⟩ | ⟨made, written, hwritten, hsaved⟩ := save_cases settings path files
    · rw [herror] at hsave
      cases hsave
    · rw [hsaved] at hsave
      cases hsave
      show ofFile _ path = _
      unfold ofFile
      rw [Files.readText_of_writeText hwritten]
      exact htext
  · obtain ⟨cause, herror⟩ | ⟨made, written, hwritten, hsaved⟩ := save_cases settings path files
    · rw [herror] at hsave
      cases hsave
      exact ⟨cause, rfl⟩
    · rw [hsaved] at hsave
      cases hsave

/-- Names and arguments that need every kind of quotes, and numbers at the end of their
range. -/
theorem load_save_quoted :
    let settings : Settings := {
      engine := { probeMillis := 9223372036854775807, defaultShell := .zsh }
      catalog := { grammarDirectory := "", locationDirectory := some "C:\\specs" }
      display := { format := .jsonPretty, colors := false, maxSuggestions := 0 }
      log := { level := .trace, timestamps := true }
      generators := .ofList [("", ⟨"git branch", []⟩),
        ("a.b \"c\"", ⟨"line\nline", ["", "it's", "\"\"\"'''\x00"]⟩)] }
    settings.WordSized ∧ ∃ files', settings.save "conf/settings.toml" {} = .ok files' ∧
      load { files := files', home := none } (some "conf/settings.toml") = .ok settings := by
  intro settings
  have hsized : settings.WordSized := ⟨by decide, by decide⟩
  obtain ⟨files', hsave⟩ : ∃ files', settings.save "conf/settings.toml" {} = .ok files' := ⟨_, rfl⟩
  exact ⟨hsized, files', hsave, (load_save hsized none).2.1 _ _ _ hsave⟩

end CommandCompletion.Settings
