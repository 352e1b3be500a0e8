/-
Where a walk ends without a place.

`Walk.Goes` says how a walk moves on and `Walk.Arrives` where it stands still.
`Walk.Refuses` is what is left: one rule for each way in which the word in front
fits nowhere, with what is remembered once that was found out. As with the moves,
the program and the rules agree (`refuses_of_decide`, `decide_of_refuses`), so no
place is found exactly if the rules lead to a walk that refuses
(`Catalog.locate_eq_none_iff`).

How a walk goes on depends on where it stands and not on how it got there
(`run_of_reaches_run`); a walk that stands as one that begins finds what that one
finds (`Catalog.locate_of_restart`).
-/
import CommandCompletion.Proofs.Turns

set_option autoImplicit false

namespace CommandCompletion

namespace Walk

variable {σ : Type} {catalog : Catalog σ} {directory : String} {shell : Shell}
variable {memory middle after : Memory σ} {walk last : Walk} {turns : List (Walk × Move)}
variable {word : Word} {rest : List Word} {slot : Slot} {slots : List Slot}
variable {fromOption fromVariadic persist : Bool}

/-! ## The rules -/

/-- Why a walk refuses the word in front, and what the catalog remembers afterwards. The four rules
are the four "fail" steps of the matcher (specification, § 4.3: 3a and 3c of `matchSubcommand`, 4a
and 5b of `matchArgument`); none of them is an error (§ 7), and none is ever come back from. -/
inductive Refuses (catalog : Catalog σ) (memory : Memory σ) (walk : Walk) : Memory σ → Prop where
  /-- Where options are looked for, none has this name. -/
  | unknownOption {word : Word} {rest : List Word}
      (hwords : walk.words = word :: rest) (hcomplete : word.complete = true)
      (hopen : walk.isOpen = true) (hoption : word.isOption = true)
      (hunknown : CommandOption.find? word.text walk.inherited walk.node.options = none) :
      Refuses catalog memory walk memory
  /-- The word is no child, and the command takes no arguments. -/
  | unknownChild {word : Word} {rest : List Word} {argsExhausted argsUsed : Bool}
      {after : Memory σ} (hstage : walk.stage = .command argsExhausted argsUsed)
      (hwords : walk.words = word :: rest) (hcomplete : word.complete = true)
      (hpasses : Passes catalog memory walk word after) (hargs : walk.node.args = []) :
      Refuses catalog memory walk after
  /-- The word is left to a slot for a command, and is the last one. -/
  | lastWord {word : Word} {slot : Slot} {slots : List Slot}
      {fromOption fromVariadic persist : Bool} {after : Memory σ}
      (hstage : walk.stage = .arguments (slot :: slots) fromOption fromVariadic persist)
      (hwords : walk.words = [word]) (hcomplete : word.complete = true)
      (hpasses : Passes catalog memory walk word after) (hvariadic : slot.isVariadic = false)
      (hcommand : slot.isCommand = true) : Refuses catalog memory walk after
  /-- The word is left to a slot for a command, and there is no grammar for it. -/
  | unknownCommand {word : Word} {rest : List Word} {slot : Slot} {slots : List Slot}
      {fromOption fromVariadic persist : Bool} {middle after : Memory σ}
      (hstage : walk.stage = .arguments (slot :: slots) fromOption fromVariadic persist)
      (hwords : walk.words = word :: rest) (hcomplete : word.complete = true)
      (hpasses : Passes catalog memory walk word middle) (hvariadic : slot.isVariadic = false)
      (hcommand : slot.isCommand = true) (hmore : rest ≠ [])
      (hroot : (catalog.loadRoot word.text).run middle = (none, after)) :
      Refuses catalog memory walk after

/-! ## A refusal is a rule -/

/-- A word is refused as an option only if no option has its name. -/
theorem find?_of_decideOption_refuse {hrank : 0 < rank walk.stage}
    (h : walk.decideOption word hrank = .refuse) :
    CommandOption.find? word.text walk.inherited walk.node.options = none := by
  unfold decideOption at h
  split at h
  · cases h
  · assumption

theorem refuses_of_decideCommand {hne : walk.words ≠ []} {hrank : rank walk.stage = 2}
    {argsExhausted argsUsed : Bool} (hstage : walk.stage = .command argsExhausted argsUsed)
    (hwords : walk.words = word :: rest) (hcomplete : word.complete = true)
    (h : (walk.decideCommand catalog word hne hrank).run memory = (.refuse, after)) :
    Refuses catalog memory walk after := by
  have hopen : walk.isOpen = true := by simp only [isOpen, hstage]
  unfold decideCommand at h
  split at h
  -- What looks like an option is looked for among the options, anything else among the children.
  · rename_i hoption
    obtain ⟨hdecided, rfl⟩ := Prod.mk.inj h
    exact .unknownOption hwords hcomplete hopen hoption (find?_of_decideOption_refuse hdecided)
  · rename_i hoption
    have hplain : word.isOption = false := by simpa using hoption
    obtain ⟨child?, middle, hchild, h⟩ := Recall.exists_of_run_bind h
    cases child? with
    | some child => cases h
    | none =>
      dsimp only at h
      split at h
      · rename_i hargs
        cases h
        exact .unknownChild hstage hwords hcomplete (.missed hopen hplain hchild) hargs
      · cases h

/-- Of the values, only a command can be refused. -/
theorem refuses_of_decideValue {hne : walk.words ≠ []}
    (hstage : walk.stage = .arguments (slot :: slots) fromOption fromVariadic persist)
    (hwords : walk.words = word :: rest) (hcomplete : word.complete = true)
    (hpasses : Passes catalog memory walk word middle)
    (h : (walk.decideValue catalog word slot slots fromOption persist hne).run middle =
      (.refuse, after)) : Refuses catalog memory walk after := by
  unfold decideValue at h
  by_cases hvariadic : slot.isVariadic = true
  · rw [if_pos hvariadic] at h
    cases h
  · rw [if_neg hvariadic] at h
    have hscalar : slot.isVariadic = false := by simpa using hvariadic
    by_cases hcommand : slot.isCommand = true
    · rw [if_pos hcommand] at h
      -- A command is refused if nothing follows its name, or if there is no grammar for it.
      by_cases hlast : walk.words.tail = []
      · rw [if_pos hlast] at h
        cases h
        have hrest : rest = [] := by simpa only [hwords, List.tail_cons] using hlast
        exact .lastWord hstage (hrest ▸ hwords) hcomplete hpasses hscalar hcommand
      · rw [if_neg hlast] at h
        have hmore : rest ≠ [] := by simpa only [hwords, List.tail_cons] using hlast
        obtain ⟨root?, last, hroot, h⟩ := Recall.exists_of_run_bind h
        cases root? with
        | some root => cases h
        | none =>
          cases h
          exact .unknownCommand hstage hwords hcomplete hpasses hscalar hcommand hmore hroot
    · rw [if_neg hcommand] at h
      cases h

theorem refuses_of_decideArgument {hne : walk.words ≠ []} {hrank : 0 < rank walk.stage}
    (hstage : walk.stage = .arguments (slot :: slots) fromOption fromVariadic persist)
    (hwords : walk.words = word :: rest) (hcomplete : word.complete = true)
    (h : (walk.decideArgument catalog word slot slots fromOption fromVariadic persist hne hrank).run
      memory = (.refuse, after)) : Refuses catalog memory walk after := by
  have hisOpen : walk.isOpen = allOptional (slot :: slots) fromVariadic := by
    simp only [isOpen, hstage]
  unfold decideArgument at h
  -- Options and children are looked for first, but only where all slots may be skipped.
  by_cases hopen : allOptional (slot :: slots) fromVariadic = true
  · rw [if_pos hopen] at h
    rw [← hisOpen] at hopen
    by_cases hoption : word.isOption = true
    · rw [if_pos hoption] at h
      obtain ⟨hdecided, rfl⟩ := Prod.mk.inj h
      exact .unknownOption hwords hcomplete hopen hoption (find?_of_decideOption_refuse hdecided)
    · rw [if_neg hoption] at h
      have hplain : word.isOption = false := by simpa using hoption
      obtain ⟨child?, middle, hchild, h⟩ := Recall.exists_of_run_bind h
      cases child? with
      | some child => cases h
      | none => exact refuses_of_decideValue hstage hwords hcomplete (.missed hopen hplain hchild) h
  · rw [if_neg hopen] at h
    have hshut : walk.isOpen = false := by rw [hisOpen]; simpa using hopen
    exact refuses_of_decideValue hstage hwords hcomplete (.shut hshut) h

/-- **Every refusal is one of the rules.** By the same cases as `goes_of_decide`; only the branches
that end the walk are left here. -/
theorem refuses_of_decide
    (h : (walk.decide catalog directory shell).run memory = (.refuse, after)) :
    Refuses catalog memory walk after := by
  unfold decide at h
  split at h
  · rename_i argsExhausted argsUsed hstage
    dsimp only at h
    split at h
    · cases h
    · rename_i word rest hwords
      split at h
      · rename_i hcomplete
        exact refuses_of_decideCommand hstage hwords hcomplete h
      · cases h
  · cases h
  · rename_i slot slots fromOption fromVariadic persist hstage
    dsimp only at h
    split at h
    · cases h
    · rename_i word rest hwords
      split at h
      · rename_i hcomplete
        exact refuses_of_decideArgument hstage hwords hcomplete h
      · cases h
  · split at h <;> cases h

/-! ## What a rule says is refused -/

/-- An option that is not known ends the walk where options are looked for, and the catalog is not
asked at all: what looks like an option is never looked up as a child. -/
theorem decide_of_unknownOption (hwords : walk.words = word :: rest)
    (hcomplete : word.complete = true) (hopen : walk.isOpen = true)
    (hoption : word.isOption = true)
    (hunknown : CommandOption.find? word.text walk.inherited walk.node.options = none) :
    (walk.decide catalog directory shell).run memory = (.refuse, memory) := by
  have hrefuses : ∀ hrank, walk.decideOption word hrank = .refuse := by
    intro hrank
    unfold decideOption
    split
    · rename_i heq
      rw [hunknown] at heq
      cases heq
    · rfl
  -- Options are looked for at a command and in arguments that may be skipped.
  obtain ⟨_, _, hstage⟩ | ⟨_, _, _, _, _, hstage, hskip⟩ := stage_of_isOpen hopen
  · obtain ⟨hne, hrank, hdecide⟩ := decide_of_command hstage hwords hcomplete
    rw [hdecide, decideCommand, if_pos hoption, hrefuses]
    rfl
  · obtain ⟨hne, hrank, hdecide⟩ := decide_of_arguments hstage hwords hcomplete
    rw [hdecide, decideArgument, if_pos hskip, if_pos hoption, hrefuses]
    rfl

/-- A word that names no child ends the walk at a command without arguments. -/
theorem decide_of_unknownChild {argsExhausted argsUsed : Bool}
    (hstage : walk.stage = .command argsExhausted argsUsed) (hwords : walk.words = word :: rest)
    (hcomplete : word.complete = true) (hplain : word.isOption = false)
    (hunknown : (catalog.resolveChild walk.node word.text).run memory = (none, after))
    (hargs : walk.node.args = []) :
    (walk.decide catalog directory shell).run memory = (.refuse, after) := by
  obtain ⟨hne, hrank, hdecide⟩ := decide_of_command hstage hwords hcomplete
  rw [hdecide, decideCommand, if_neg (Bool.eq_false_iff.mp hplain), Recall.run_bind_of hunknown]
  simp only [dif_pos hargs]
  rfl

/-- **Every rule is a refusal that a walk decides on.** -/
theorem decide_of_refuses (h : Refuses catalog memory walk after) :
    (walk.decide catalog directory shell).run memory = (.refuse, after) := by
  cases h with
  | unknownOption hwords hcomplete hopen hoption hunknown =>
    exact decide_of_unknownOption hwords hcomplete hopen hoption hunknown
  | unknownChild hstage hwords hcomplete hpasses hargs =>
    -- A command is always open, so the word was looked for.
    cases hpasses with
    | shut hshut =>
      simp only [isOpen, hstage] at hshut
      cases hshut
    | missed _ hplain hmissed =>
      exact decide_of_unknownChild hstage hwords hcomplete hplain hmissed hargs
  | lastWord hstage hwords hcomplete hpasses hvariadic hcommand =>
    obtain ⟨hne, hrank, hdecide⟩ := decide_of_arguments hstage hwords hcomplete
    have htail : walk.words.tail = [] := by rw [hwords]; rfl
    rw [hdecide, decideArgument_of_passes hstage hpasses, decideValue]
    simp only [hvariadic, hcommand, Bool.false_eq_true, if_false, if_true, htail]
    rfl
  | unknownCommand hstage hwords hcomplete hpasses hvariadic hcommand hmore hroot =>
    obtain ⟨hne, hrank, hdecide⟩ := decide_of_arguments hstage hwords hcomplete
    have htail : walk.words.tail ≠ [] := by rw [hwords]; exact hmore
    rw [hdecide, decideArgument_of_passes hstage hpasses, decideValue]
    simp only [hvariadic, hcommand, Bool.false_eq_true, if_false, if_true, htail]
    rw [Recall.run_bind_of hroot]
    rfl

/-! ## Whole walks -/

/-- **A walk goes on as one that begins where it stands.** By induction on the turns made so far,
each of which is what `run` decides on there (`decide_of_goes`). -/
theorem run_of_reaches_run {more : List (Walk × Move)} {ending : Ending}
    (hreaches : Reaches catalog memory walk turns last middle)
    (hrun : (run catalog directory shell last).run middle = ((more, ending), after)) :
    (run catalog directory shell walk).run memory = ((turns ++ more, ending), after) := by
  induction hreaches with
  | here => exact hrun
  | go hgoes _ ih =>
    rw [run, Recall.run_bind_of (decide_of_goes hgoes)]
    dsimp only
    rw [Recall.run_bind_of (ih hrun)]
    rfl

/-- A walk is refused exactly if the rules lead it to where it refuses. -/
theorem run_eq_refused_iff :
    (run catalog directory shell walk).run memory = ((turns, .refused), after) ↔
      ∃ last middle, Reaches catalog memory walk turns last middle ∧
        Refuses catalog middle last after := by
  constructor
  · intro h
    obtain ⟨last, middle, turn, hreaches, hlast, hending⟩ := exists_reaches_of_run h
    -- Of the turns that end a walk, this is the one that reports a refusal.
    cases turn with
    | refuse => exact ⟨last, middle, hreaches, refuses_of_decide hlast⟩
    | go | arrive | lost => cases hending
  · rintro ⟨last, middle, hreaches, hrefuses⟩
    exact run_of_ending hreaches (decide_of_refuses hrefuses) rfl

end Walk

namespace Catalog

variable {σ : Type} {catalog : Catalog σ} {directory : String} {shell : Shell}
variable {memory middle after : Memory σ} {words rest : List Word} {root next : CatalogNode}
variable {turns : List (Walk × Move)}

/-- No place is found if the walk is refused. -/
theorem locate_of_refused
    (h : (Walk.run catalog directory shell { words := words, node := root }).run memory =
      ((turns, .refused), after)) :
    (catalog.locate directory shell words root).run memory = (.ok none, after) := by
  unfold locate
  rw [Recall.run_bind_of h]
  rfl

/-- **No place is found exactly if the rules lead to where the walk refuses.** Together with
`locate_eq_some_iff` this is all that can be found, since a walk is never lost. -/
theorem locate_eq_none_iff :
    (catalog.locate directory shell words root).run memory = (.ok none, after) ↔
      ∃ turns last middle, Walk.Reaches catalog memory { words := words, node := root } turns
        last middle ∧ Walk.Refuses catalog middle last after := by
  constructor
  · intro h
    obtain ⟨⟨turns, ending⟩, final, hrun, h⟩ := Recall.exists_of_run_bind h
    -- A walk that arrives finds a place, and a lost one would be a failure.
    cases ending with
    | arrived => cases h
    | refused =>
      cases h
      exact ⟨turns, Walk.run_eq_refused_iff.mp hrun⟩
    | lost => cases h
  · rintro ⟨turns, last, middle, hreaches, hrefuses⟩
    exact locate_of_refused (Walk.run_eq_refused_iff.mpr ⟨last, middle, hreaches, hrefuses⟩)

/-- **A walk that has come to stand as one that begins finds what that one finds.** Commands that
take over are the case it is needed for. -/
theorem locate_of_restart (hreaches : Walk.Reaches catalog memory { words := words, node := root }
    turns { words := rest, node := next } middle) :
    (catalog.locate directory shell words root).run memory =
      (catalog.locate directory shell rest next).run middle := by
  obtain ⟨⟨⟨more, ending⟩, after⟩, hrun⟩ : ∃ result,
      (Walk.run catalog directory shell { words := rest, node := next }).run middle = result :=
    ⟨_, rfl⟩
  unfold locate
  rw [Recall.run_bind_of (Walk.run_of_reaches_run hreaches hrun), Recall.run_bind_of hrun]

end Catalog

end CommandCompletion
