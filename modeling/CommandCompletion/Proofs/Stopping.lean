/-
How soon a walk stops, and that it never gets lost.

Not every turn takes a word: a list of arguments that is used up goes back to the
command, the command goes on to arguments or to an option, and so may a list that
can be skipped. What bounds the turns is how many of them can come before the
next word is taken (`turnsToTake`): at most two, because a word that is no option
when the command passes it on to the arguments is no option there either. So
every turn uses up a part of `turnsLeft`, three for each word, and a walk over
`n` words has stopped before its `3 * (n + 1)`th turn is over (`run_stops`).

An option is only ever looked at while its name is in front, so a walk is never
lost, and no turn reaches for a word or a slot that is not there.
-/
import CommandCompletion.Proofs.Progress

set_option autoImplicit false

namespace CommandCompletion

namespace Walk

variable {σ : Type} {catalog : Catalog σ} {directory : String} {shell : Shell}
variable {memory after : Memory σ} {walk last : Walk} {move : Move} {turns : List (Walk × Move)}

/-! ## Counting turns -/

/-- The word in front is an option. -/
def optionInFront (walk : Walk) : Bool := walk.words.head?.any fun word => word.isOption

/-- How many turns can come before the one that takes the next word. A list that is used up goes
back to the command first, and the command goes on to an option or to the arguments; arguments have
one more turn to come only if the word in front may be an option. -/
def turnsToTake (walk : Walk) : Nat :=
  match walk.stage with
  | .arguments [] _ _ _ => 2
  | .command _ _ => 1
  | .arguments (_ :: _) _ _ _ => if walk.optionInFront then 1 else 0
  | .option _ => 0

/-- Uses up at least one with every turn. Three for each word is what a word can cost: two turns
before it is taken, and the one that takes it. -/
def turnsLeft (walk : Walk) : Nat := 3 * walk.words.length + walk.turnsToTake

theorem turnsToTake_le (walk : Walk) : walk.turnsToTake ≤ 2 := by
  unfold turnsToTake
  split
  · omega
  · omega
  · split <;> omega
  · omega

/-- Going on to an option is worth a turn: an option is in front. -/
theorem turnsToTake_of_isOpen (hopen : walk.isOpen = true) (hfront : walk.optionInFront = true) :
    walk.turnsToTake = 1 := by
  obtain ⟨_, _, hstage⟩ | ⟨_, _, _, _, _, hstage, -⟩ := stage_of_isOpen hopen
  · simp only [turnsToTake, hstage]
  · simp only [turnsToTake, hstage, hfront, if_true]

/-- The arguments that a command passes a word on to can take it at once, since
the word is no option. -/
theorem turnsToTake_arguments {slots : List Slot} {fromOption fromVariadic persist : Bool}
    (hslots : slots ≠ []) (hstage : walk.stage = .arguments slots fromOption fromVariadic persist)
    (hfront : walk.optionInFront = false) : walk.turnsToTake = 0 := by
  cases slots with
  | nil => exact absurd rfl hslots
  | cons slot slots => simp only [turnsToTake, hstage, hfront, Bool.false_eq_true, if_false]

/-- A turn that takes a word pays for all turns up to the next one. -/
theorem turnsLeft_lt_of_tail {next : Walk} (hne : walk.words ≠ [])
    (h : next.words = walk.words.tail) : next.turnsLeft < walk.turnsLeft := by
  have hlen : walk.words.tail.length + 1 = walk.words.length := by
    cases hw : walk.words with
    | nil => exact absurd hw hne
    | cons => simp
  have hnext := turnsToTake_le next
  simp only [turnsLeft, h]
  omega

/-- **Every turn uses up one of those that are left.** One case for each rule. The rules that take a
word are paid by the word; of the other three, going on to the arguments needs that the word was
passed on, and so is no option that could be looked for again there. -/
theorem Goes.turnsLeft_lt (h : Goes catalog memory walk move after) :
    (walk.perform move).turnsLeft < walk.turnsLeft := by
  have taken : ∀ {next : Walk} {word : Word} {rest : List Word}, walk.words = word :: rest →
      next.words = walk.words.tail → next.turnsLeft < walk.turnsLeft := by
    intro next word rest hwords htail
    exact turnsLeft_lt_of_tail (by rw [hwords]; exact List.cons_ne_nil _ _) htail
  -- Three rules leave the words as they are and pay with their stage; the others take a word.
  cases h with
  | @beginOption word rest option hwords _ hopen hoption =>
    have hbefore : walk.turnsToTake = 1 := by
      refine turnsToTake_of_isOpen hopen ?_
      simp only [optionInFront, hwords, List.head?_cons, Option.any_some, hoption]
    have hafter : (walk.perform (.beginOption option)).turnsToTake = 0 := rfl
    have hsame : (walk.perform (.beginOption option)).words = walk.words := rfl
    simp only [turnsLeft, hbefore, hafter, hsame]
    omega
  | beginArguments hstage hwords _ hpasses hargs =>
    have hbefore : walk.turnsToTake = 1 := by simp only [turnsToTake, hstage]
    -- Otherwise arguments that may be skipped would send the word on to an option: a third turn.
    have hplain : walk.optionInFront = false := by
      cases hpasses with
      | shut hshut => simp only [isOpen, hstage, Bool.true_eq_false] at hshut
      | missed _ hplain =>
        simp only [optionInFront, hwords, List.head?_cons, Option.any_some, hplain]
    have hafter : (walk.perform .beginArguments).turnsToTake = 0 :=
      turnsToTake_arguments hargs rfl hplain
    have hsame : (walk.perform .beginArguments).words = walk.words := rfl
    simp only [turnsLeft, hbefore, hafter, hsame]
    omega
  -- Back at the node, the word in front may still name an option, but no arguments are in
  -- between.
  | @endArguments fromOption _ _ hstage =>
    have hbefore : walk.turnsToTake = 2 := by simp only [turnsToTake, hstage]
    have hafter : (walk.perform (.endArguments fromOption)).turnsToTake = 1 := rfl
    have hsame : (walk.perform (.endArguments fromOption)).words = walk.words := rfl
    simp only [turnsLeft, hbefore, hafter, hsame]
    omega
  | enter hwords => exact taken hwords rfl
  | delegate _ hwords => exact taken hwords rfl
  | takeOption _ hwords | repeatSlot _ hwords | fillSlot _ hwords =>
    exact taken hwords (words_take walk _)

/-- A walk makes no more turns than it had left at its start, less those it has left at its end. -/
theorem Reaches.length_le (h : Reaches catalog memory walk turns last after) :
    turns.length + last.turnsLeft ≤ walk.turnsLeft := by
  induction h with
  | here => simp
  | go hgoes _ ih =>
    have hstep := hgoes.turnsLeft_lt
    simp only [List.length_cons]
    omega

/-! ## Running for a number of turns -/

/-- What `run` reports if the walk has ended after at most `fuel` turns, the one
in which it ends included. -/
def runFor (catalog : Catalog σ) (directory : String) (shell : Shell) :
    Nat → Walk → Recall σ (Option (List (Walk × Move) × Ending))
  | 0, _ => return none
  | fuel + 1, walk => do
    match ← walk.decide catalog directory shell with
    | .go move _ =>
      match ← runFor catalog directory shell fuel (walk.perform move) with
      | some (turns, ending) => return some ((walk, move) :: turns, ending)
      | none => return none
    | .arrive context => return some ([], .arrived context)
    | .refuse => return some ([], .refused)
    | .lost reason => return some ([], .lost reason)

/-- Turns for all that `run` does are enough. The induction is on the turns that are allowed, and
the two runs make the same turn each time. -/
theorem runFor_of_run {memory after : Memory σ} {walk : Walk} {ending : Ending} {fuel : Nat}
    (h : (run catalog directory shell walk).run memory = ((turns, ending), after))
    (hfuel : turns.length + 1 ≤ fuel) :
    (runFor catalog directory shell fuel walk).run memory = (some (turns, ending), after) := by
  induction fuel generalizing memory walk turns with
  | zero => omega
  | succ fuel ih =>
    rw [run] at h
    obtain ⟨turn, middle, hdecided, h⟩ := Recall.exists_of_run_bind h
    rw [runFor, Recall.run_bind_of hdecided]
    -- A turn that goes on uses up one of those allowed; the other three end both runs at once.
    cases turn with
    | go move smaller =>
      obtain ⟨⟨turns', ending'⟩, final, hrun, h⟩ := Recall.exists_of_run_bind h
      cases h
      have hrest : turns'.length + 1 ≤ fuel := by
        simp only [List.length_cons] at hfuel
        omega
      dsimp only
      rw [Recall.run_bind_of (ih hrun hrest)]
      rfl
    | arrive | refuse | lost =>
      cases h
      rfl

/-! ## Never lost -/

/-- Only at an option without a word is a walk lost. -/
theorem stage_of_lost {reason : String}
    (h : (walk.decide catalog directory shell).run memory = (.lost reason, after)) :
    (∃ option, walk.stage = .option option) ∧ walk.words = [] := by
  have hsettled : ∀ {action : Recall σ (Turn walk)}, (action.run memory).1.settled = true →
      action.run memory ≠ (.lost reason, after) := by
    intro action hsettled heq
    rw [heq] at hsettled
    cases hsettled
  -- At a command or at arguments the decision is settled; what is left is an option without a
  -- word.
  unfold decide at h
  split at h
  · dsimp only at h
    split at h
    · cases h
    · split at h
      · exact absurd h (hsettled settled_decideCommand)
      · cases h
  · cases h
  · dsimp only at h
    split at h
    · cases h
    · split at h
      · exact absurd h (hsettled settled_decideArgument)
      · cases h
  · rename_i option hstage
    split at h
    · rename_i hwords
      exact ⟨⟨option, hstage⟩, hwords⟩
    · cases h

/-- A walk whose option is named by the word in front is not lost. This is the assertion of the
specification (§ 7: an argument step with no word although one was guaranteed), shown never to fail.
-/
theorem NamesNext.ne_lost (hnames : walk.NamesNext) {reason : String} :
    (walk.decide catalog directory shell).run memory ≠ (.lost reason, after) := by
  intro h
  obtain ⟨⟨option, hstage⟩, hwords⟩ := stage_of_lost h
  obtain ⟨word, rest, hfront, -⟩ := hnames option hstage
  rw [hwords] at hfront
  cases hfront

/-- So a walk that sets out from a node is not lost: that the word in front names the option is kept
by every turn. -/
theorem ne_lost_of_run {ending : Ending} (hnames : walk.NamesNext)
    (h : (run catalog directory shell walk).run memory = ((turns, ending), after))
    (reason : String) : ending ≠ .lost reason := by
  rintro rfl
  obtain ⟨last, middle, turn, hreaches, hlast, hending⟩ := exists_reaches_of_run h
  cases turn with
  | lost =>
    cases hending
    exact (hreaches.namesNext hnames).ne_lost hlast
  | go | arrive | refuse => cases hending

end Walk

namespace Catalog

variable {σ : Type} {catalog : Catalog σ} {directory : String} {shell : Shell}
variable {memory after : Memory σ} {words : List Word} {root : CatalogNode}

/-- So looking for a place never fails. -/
theorem exists_locate_of_run {turns : List (Walk × Move)} {ending : Walk.Ending}
    (hrun : (Walk.run catalog directory shell { words := words, node := root }).run memory =
      ((turns, ending), after)) :
    ∃ context?, (catalog.locate directory shell words root).run memory = (.ok context?, after) := by
  unfold locate
  rw [Recall.run_bind_of hrun]
  -- An arrival is a place and a refusal none; the third ending does not occur.
  cases ending with
  | arrived context => exact ⟨some context, rfl⟩
  | refused => exact ⟨none, rfl⟩
  | lost reason => exact absurd rfl (Walk.ne_lost_of_run (Walk.namesNext_of_command rfl) hrun reason)

/-- The same for a search whose outcome is at hand: it is no failure, since it is the one above. -/
theorem exists_ok_of_locate {place : Except Failure (Option (Context Nat))}
    (h : (catalog.locate directory shell words root).run memory = (place, after)) :
    ∃ context?, place = .ok context? := by
  obtain ⟨⟨⟨turns, ending⟩, middle⟩, hrun⟩ : ∃ result,
      (Walk.run catalog directory shell { words := words, node := root }).run memory = result :=
    ⟨_, rfl⟩
  obtain ⟨context?, hlocate⟩ := exists_locate_of_run hrun
  rw [hlocate] at h
  cases h
  exact ⟨context?, rfl⟩

end Catalog

namespace Walk

variable {σ : Type} {catalog : Catalog σ} {directory : String} {shell : Shell}
variable {memory after : Memory σ} {walk last : Walk} {move : Move} {turns : List (Walk × Move)}

/-! ## In range -/

/-- The word and the slot that a move takes are there, and for a command that takes over a word of
its own. Stated on moves because they are what a walk reports. -/
def InRange (walk : Walk) : Move → Prop
  | .beginArguments | .endArguments _ | .beginOption _ => True
  | .enter _ | .takeOption _ _ => walk.words ≠ []
  | .delegate _ => walk.words.tail ≠ []
  | .takeValue slots fromOption _ persist => walk.words ≠ [] ∧
    ∃ slot rest fromVariadic,
      walk.stage = .arguments (slot :: rest) fromOption fromVariadic persist ∧
        (slots = slot :: rest ∨ slots = rest)

/-- A turn that a rule allows is in range: each rule that takes a word has it in front of itself. -/
theorem Goes.inRange (h : Goes catalog memory walk move after) : walk.InRange move := by
  cases h with
  | beginOption | beginArguments | endArguments => exact True.intro
  | enter hwords | takeOption _ hwords =>
    show walk.words ≠ []
    rw [hwords]
    exact List.cons_ne_nil _ _
  | delegate _ hwords _ _ _ _ hmore =>
    show walk.words.tail ≠ []
    rw [hwords]
    exact hmore
  | repeatSlot hstage hwords =>
    exact ⟨by rw [hwords]; exact List.cons_ne_nil _ _, _, _, _, hstage, .inl rfl⟩
  | fillSlot hstage hwords =>
    exact ⟨by rw [hwords]; exact List.cons_ne_nil _ _, _, _, _, hstage, .inr rfl⟩

/-- So are all turns of a walk, one after the other. -/
theorem Reaches.inRange (h : Reaches catalog memory walk turns last after) :
    ∀ turn ∈ turns, turn.1.InRange turn.2 := by
  induction h with
  | here => simp
  | go hgoes _ ih =>
    intro turn hturn
    rcases List.mem_cons.mp hturn with rfl | hmem
    · exact hgoes.inRange
    · exact ih turn hmem

/-! ## Every walk stops -/

/-- **Every walk stops in time and knows where it is.** Over `n` words it ends within `3 * (n + 1)`
turns, whatever the catalog and its memory are; it arrives or refuses, so a place is looked for
without a failure (specification, § 7); and none of its turns takes a word or a slot that is not
there. The bound is `turnsLeft` at the start, the rest are invariants along the walk. -/
theorem run_stops (catalog : Catalog σ) (directory : String) (shell : Shell)
    (memory : Memory σ) (words : List Word) (root : CatalogNode) :
    ∃ turns ending after,
      (runFor catalog directory shell (3 * (words.length + 1)) { words := words, node := root }).run
        memory = (some (turns, ending), after) ∧
      (run catalog directory shell { words := words, node := root }).run memory =
        ((turns, ending), after) ∧
      turns.length + 1 ≤ 3 * (words.length + 1) ∧
      (∀ reason, ending ≠ .lost reason) ∧
      (∃ context?, (catalog.locate directory shell words root).run memory =
        (.ok context?, after)) ∧
      ∀ turn ∈ turns, turn.1.InRange turn.2 := by
  obtain ⟨⟨⟨turns, ending⟩, after⟩, hrun⟩ : ∃ result,
      (run catalog directory shell { words := words, node := root }).run memory = result :=
    ⟨_, rfl⟩
  obtain ⟨last, middle, turn, hreaches, hlast, hending⟩ := exists_reaches_of_run hrun
  have hnames : NamesNext { words := words, node := root } := namesNext_of_command rfl
  have hcount : turns.length + 1 ≤ 3 * (words.length + 1) := by
    have hstart : turnsLeft { words := words, node := root } = 3 * words.length + 1 := rfl
    have hle := hreaches.length_le
    omega
  exact ⟨turns, ending, after, runFor_of_run hrun hcount, hrun, hcount, ne_lost_of_run hnames hrun,
    Catalog.exists_locate_of_run hrun, hreaches.inRange⟩

end Walk

end CommandCompletion
