/-
Commands that take over.

At a slot for a command, as in `sudo git status`, the word that is left to the
slot names the command whose grammar the words after it are read by. The walk
begins anew there: options, inherited options and words of the outer command are
gone, whether the slot belongs to the command or to one of its options. So the
whole line leads where the words after the name lead by themselves, from the same
memory (`Catalog.locate_of_delegation`). Nothing is found if no word follows the
name or there is no grammar for it.

A word that looks like an option is looked up as one where all slots that are left
may be skipped. It never reaches the slot then, also if a command has its name.
-/
import CommandCompletion.Proofs.Progress
import CommandCompletion.Proofs.Refusals

set_option autoImplicit false

namespace CommandCompletion

variable {σ : Type} {catalog : Catalog σ} {directory : String} {shell : Shell}
variable {memory middle passed loaded : Memory σ} {walk : Walk} {turns : List (Walk × Move)}
variable {words rest : List Word} {word : Word} {outer root : CatalogNode}

/-! ## At a slot for a command -/

namespace Walk

/-- The walk stands at a slot for one command, of a command or of an option, and a complete word is
in front. A slot that is variadic as well is none of these: it takes the word as a value. -/
structure AwaitsCommand (walk : Walk) (word : Word) (rest : List Word) : Prop where
  stage : ∃ slot slots fromOption fromVariadic persist,
    walk.stage = .arguments (slot :: slots) fromOption fromVariadic persist ∧
      slot.isVariadic = false ∧ slot.isCommand = true
  words : walk.words = word :: rest
  complete : word.complete = true

/-- A name without a word after it is refused. -/
theorem AwaitsCommand.refuses_lastWord (h : walk.AwaitsCommand word [])
    (hpasses : Passes catalog memory walk word passed) : Refuses catalog memory walk passed := by
  obtain ⟨slot, slots, fromOption, fromVariadic, persist, hstage, hvariadic, hcommand⟩ := h.stage
  exact .lastWord hstage h.words h.complete hpasses hvariadic hcommand

/-- A name that no grammar is found for is refused. -/
theorem AwaitsCommand.refuses_unknownCommand (h : walk.AwaitsCommand word rest)
    (hpasses : Passes catalog memory walk word passed) (hmore : rest ≠ [])
    (hroot : (catalog.loadRoot word.text).run passed = (none, loaded)) :
    Refuses catalog memory walk loaded := by
  obtain ⟨slot, slots, fromOption, fromVariadic, persist, hstage, hvariadic, hcommand⟩ := h.stage
  exact .unknownCommand hstage h.words h.complete hpasses hvariadic hcommand hmore hroot

/-- A name that a grammar is found for is taken, and leaves nothing behind: the walk that goes on is
the one that the rest of the words would begin with. -/
theorem AwaitsCommand.reaches_root (h : walk.AwaitsCommand word rest)
    (hpasses : Passes catalog memory walk word passed) (hmore : rest ≠ [])
    (hroot : (catalog.loadRoot word.text).run passed = (some root, loaded)) :
    Reaches catalog memory walk [(walk, .delegate root)] { words := rest, node := root } loaded := by
  obtain ⟨slot, slots, fromOption, fromVariadic, persist, hstage, hvariadic, hcommand⟩ := h.stage
  have hgoes : Goes catalog memory walk (.delegate root) loaded :=
    .delegate hstage h.words h.complete hpasses hvariadic hcommand hmore hroot
  -- Taking over resets every other field to what it is at the start.
  have hnext : walk.perform (.delegate root) = { words := rest, node := root } := by
    rw [perform, h.words, List.tail_cons]
  have hreaches : Reaches catalog memory walk [(walk, .delegate root)]
      (walk.perform (.delegate root)) loaded := .go hgoes (.here loaded _)
  rw [hnext] at hreaches
  exact hreaches

end Walk

/-! ## What is found -/

namespace Catalog

/-- What is found for `words`, read by the grammar `outer`, where the walk has come
to a slot for a command with `word` in front of `rest`; `middle` is what is
remembered there. -/
structure HandsOver (catalog : Catalog σ) (directory : String) (shell : Shell)
    (words : List Word) (outer : CatalogNode) (memory : Memory σ) (walk : Walk) (word : Word)
    (rest : List Word) (middle : Memory σ) : Prop where
  /-- The words after the name are read by its grammar alone, as if they were all. -/
  taken : ∀ passed root loaded, Walk.Passes catalog middle walk word passed → rest ≠ [] →
    (catalog.loadRoot word.text).run passed = (some root, loaded) →
    (catalog.locate directory shell words outer).run memory =
      (catalog.locate directory shell rest root).run loaded
  /-- Without a grammar for the name, nothing is found. -/
  unknown : ∀ passed loaded, Walk.Passes catalog middle walk word passed → rest ≠ [] →
    (catalog.loadRoot word.text).run passed = (none, loaded) →
    (catalog.locate directory shell words outer).run memory = (.ok none, loaded)
  /-- Without a word after the name, nothing is found, and its grammar is not
  loaded. -/
  last : ∀ passed, Walk.Passes catalog middle walk word passed → rest = [] →
    (catalog.locate directory shell words outer).run memory = (.ok none, passed)
  /-- What looks like an option is none of the command's words where options are
  looked for. -/
  option : walk.isOpen = true → word.isOption = true →
    CommandOption.find? word.text walk.inherited walk.node.options = none →
    (catalog.locate directory shell words outer).run memory = (.ok none, middle)

/-- **A command that takes over is read as if it had been typed alone**, wherever the walk meets it:
after any options, children and commands that took over before (specification, § 4.3, `isCommand`
slots). Each field is one rule or one refusal at the slot, put behind the turns that led there. -/
theorem locate_of_delegation
    (hreaches : Walk.Reaches catalog memory { words := words, node := outer } turns walk middle)
    (hawaits : walk.AwaitsCommand word rest) :
    HandsOver catalog directory shell words outer memory walk word rest middle where
  taken := by
    intro passed root loaded hpasses hmore hroot
    exact locate_of_restart (hreaches.trans (hawaits.reaches_root hpasses hmore hroot))
  unknown := by
    intro passed loaded hpasses hmore hroot
    exact locate_eq_none_iff.mpr
      ⟨turns, walk, middle, hreaches, hawaits.refuses_unknownCommand hpasses hmore hroot⟩
  last := by
    rintro passed hpasses rfl
    exact locate_eq_none_iff.mpr ⟨turns, walk, middle, hreaches, hawaits.refuses_lastWord hpasses⟩
  option := by
    intro hopen hoption hunknown
    exact locate_eq_none_iff.mpr ⟨turns, walk, middle, hreaches,
      .unknownOption hawaits.words hawaits.complete hopen hoption hunknown⟩

/-! The command of an option: `su -l -c git remote`. -/

/-- Takes a command as the argument of `-c`, and has an option that descendants
inherit. -/
def switchUser : CatalogNode where
  id := 0
  names := ["su"]
  options := [
    { names := ["-l"], isPersistent := true },
    { names := ["-c"], args := [{ name := "command", isOptional := true, isCommand := true }] }]

/-- Knows `git`, which has an option `-l` of its own. -/
def gitCatalog : Catalog Unit where
  source := .ofEntries [("git", .grammar {
    id := ()
    names := ["git"]
    options := [{ names := ["-l"] }]
    children := [{ id := (), names := ["remote"] }] })]
  probe := ⟨fun command _ => return .error (.probeNotStarted command "no commands")⟩

/-- The words after the name of the command that takes over. -/
def remoteWords : List Word := [.ofText "remote" true, .emptyAt 21]

/-- The line leads to `remote`, where nothing is left of `su`. -/
theorem locate_of_delegation_option : ∃ turns walk middle passed root loaded context after,
    Walk.Reaches gitCatalog (gitCatalog.initialMemory ())
      { words := ["-l", "-c", "git"].map (Word.ofText · true) ++ remoteWords, node := switchUser }
      turns walk middle ∧
    walk.AwaitsCommand (.ofText "git" true) remoteWords ∧
    walk.accepted.map (fun word => word.text) = ["-l", "-c"] ∧
    Walk.Passes gitCatalog middle walk (.ofText "git" true) passed ∧
    (gitCatalog.loadRoot "git").run passed = (some root, loaded) ∧
    (gitCatalog.locate "/w" .bash
      (["-l", "-c", "git"].map (Word.ofText · true) ++ remoteWords) switchUser).run
        (gitCatalog.initialMemory ()) = (gitCatalog.locate "/w" .bash remoteWords root).run loaded ∧
    (gitCatalog.locate "/w" .bash remoteWords root).run loaded = (.ok (some context), after) ∧
    context.node.names = ["remote"] ∧ context.inherited = [] ∧ context.accepted = [] := by
  let words := ["-l", "-c", "git"].map (Word.ofText · true) ++ remoteWords
  let start : Walk := { words := words, node := switchUser }
  let memory := gitCatalog.initialMemory ()
  -- Up to the slot, the walk takes two options.
  obtain ⟨turns, walk, hreaches, hstage, hwords, hnode, haccepted⟩ : ∃ turns walk,
      Walk.Reaches gitCatalog memory start turns walk memory ∧
      walk.stage = .arguments [{ name := "command", isOptional := true, isCommand := true }] true
        false false ∧
      walk.words = .ofText "git" true :: remoteWords ∧ walk.node = switchUser ∧
      walk.accepted.map (fun word => word.text) = ["-l", "-c"] :=
    ⟨_, _, .go (.beginOption rfl rfl rfl rfl rfl) (.go (.takeOption rfl rfl)
      (.go (.beginOption rfl rfl rfl rfl rfl) (.go (.takeOption rfl rfl) (.here memory _)))),
      rfl, rfl, rfl, rfl⟩
  have hawaits : walk.AwaitsCommand (.ofText "git" true) remoteWords :=
    ⟨⟨_, _, _, _, _, hstage, rfl, rfl⟩, hwords, rfl⟩
  -- The slot is optional, so the name is looked up as a child first, and is none.
  have hpasses : Walk.Passes gitCatalog memory walk (.ofText "git" true) memory := by
    refine .missed ?_ rfl ?_
    · rw [Walk.isOpen, hstage]
      rfl
    · rw [hnode]
      rfl
  -- What the catalog loads is too large to be written out, so it is asked what the place must
  -- show.
  have hleads : (((gitCatalog.loadRoot "git").run memory).1.any fun root =>
      ((gitCatalog.locate "/w" .bash remoteWords root).run
        ((gitCatalog.loadRoot "git").run memory).2).1.toOption.join.any fun context =>
          context.node.names == ["remote"] && context.inherited == [] && context.accepted == []) =
        true := by decide +kernel
  obtain ⟨⟨root?, loaded⟩, hroot⟩ : ∃ result, (gitCatalog.loadRoot "git").run memory = result :=
    ⟨_, rfl⟩
  rw [hroot] at hleads
  obtain ⟨root, hsome, hremains⟩ := (Option.any_eq_true _ _).mp hleads
  cases hsome
  obtain ⟨⟨place, after⟩, hplace⟩ : ∃ result,
      (gitCatalog.locate "/w" .bash remoteWords root).run loaded = result := ⟨_, rfl⟩
  rw [hplace] at hremains
  obtain ⟨context, hfound, hcontext⟩ := (Option.any_eq_true _ _).mp hremains
  cases place with
  | error failure => cases hfound
  | ok found =>
    cases found with
    | none => cases hfound
    | some place =>
      cases hfound
      simp only [Bool.and_eq_true, beq_iff_eq] at hcontext
      obtain ⟨⟨hremote, hinherited⟩, hnothing⟩ := hcontext
      have hover : HandsOver gitCatalog "/w" .bash words switchUser memory walk
          (.ofText "git" true) remoteWords memory := locate_of_delegation hreaches hawaits
      have htaken := hover.taken memory root loaded hpasses (List.cons_ne_nil _ _) hroot
      exact ⟨turns, walk, memory, memory, root, loaded, context, after, hreaches, hawaits,
        haccepted, hpasses, hroot, htaken, hplace, hremote, hinherited, hnothing⟩

end Catalog

end CommandCompletion
