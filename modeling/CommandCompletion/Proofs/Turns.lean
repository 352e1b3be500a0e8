/-
The turns of a walk, one rule for each thing a walk can do.

`Walk.decide` is a program: it looks at the stage, then at the word, then asks
the catalog. `Walk.Goes` says the same as a relation between the memory before a
move, the walk, the move and the memory after it, with one rule a move and all
that the rule asks for. `goes_of_decide` and `decide_of_goes` say that the two
agree, so whatever is kept along a walk is proved by cases on the rules, and a
walk that is to be shown possible is put together from them.

`Walk.Reaches` strings the rules together, and `run_eq_arrived_iff` says what
`Walk.run` reports of a walk that arrives: the moves that lead to where it
stands still.
-/
import CommandCompletion.Proofs.Remembering
import CommandCompletion.Walk

set_option autoImplicit false

namespace CommandCompletion.Walk

variable {σ : Type} {catalog : Catalog σ} {directory : String} {shell : Shell}
variable {memory middle after : Memory σ} {walk : Walk} {move : Move}
variable {word : Word} {rest : List Word} {slot : Slot} {slots : List Slot}
variable {fromOption fromVariadic persist : Bool}

/-! ## The rules -/

/-- Options and children are looked for here: at a command, and where every slot that is left may be
skipped. This is the one question that `decideCommand` and `decideArgument` answer differently, so
the rules below ask it once and a rule need not say at which of the two stages it is made. -/
def isOpen (walk : Walk) : Bool :=
  match walk.stage with
  | .command _ _ => true
  | .arguments [] _ _ _ => false
  | .arguments (slot :: slots) _ fromVariadic _ => allOptional (slot :: slots) fromVariadic
  | .option _ => false

/-- The word is left to the arguments: no option or child was looked for, or it is neither. Looking
for a child may have changed what is remembered even where it found none, so a word that passes
carries the memory in which the arguments are then looked at. -/
inductive Passes (catalog : Catalog σ) (memory : Memory σ) (walk : Walk) (word : Word) :
    Memory σ → Prop where
  | shut (hshut : walk.isOpen = false) : Passes catalog memory walk word memory
  | missed {after : Memory σ} (hopen : walk.isOpen = true) (hplain : word.isOption = false)
      (hmissed : (catalog.resolveChild walk.node word.text).run memory = (none, after)) :
      Passes catalog memory walk word after

/-- What a walk does in a turn, and what the catalog remembers afterwards. There is one rule a move,
and a rule names everything that has to be so for the move to be made: the stage, the word in front
and that it is complete, what was asked of the catalog, and for a slot its two flags. The rules
cover the steps of `matchSubcommand`, `matchArgument` and `matchOption` that consume a word or
change the stage (specification, § 4.3); the steps that end the matching are endings of `run`. -/
inductive Goes (catalog : Catalog σ) (memory : Memory σ) (walk : Walk) : Move → Memory σ → Prop where
  | beginOption {word : Word} {rest : List Word} {option : CommandOption}
      (hwords : walk.words = word :: rest) (hcomplete : word.complete = true)
      (hopen : walk.isOpen = true) (hoption : word.isOption = true)
      (hfound : CommandOption.find? word.text walk.inherited walk.node.options = some option) :
      Goes catalog memory walk (.beginOption option) memory
  | enter {word : Word} {rest : List Word} {child : CatalogNode} {after : Memory σ}
      (hwords : walk.words = word :: rest) (hcomplete : word.complete = true)
      (hopen : walk.isOpen = true) (hplain : word.isOption = false)
      (hchild : (catalog.resolveChild walk.node word.text).run memory = (some child, after)) :
      Goes catalog memory walk (.enter child) after
  | beginArguments {word : Word} {rest : List Word} {argsExhausted argsUsed : Bool}
      {after : Memory σ} (hstage : walk.stage = .command argsExhausted argsUsed)
      (hwords : walk.words = word :: rest) (hcomplete : word.complete = true)
      (hpasses : Passes catalog memory walk word after) (hargs : walk.node.args ≠ []) :
      Goes catalog memory walk .beginArguments after
  | endArguments {fromOption fromVariadic persist : Bool}
      (hstage : walk.stage = .arguments [] fromOption fromVariadic persist) :
      Goes catalog memory walk (.endArguments fromOption) memory
  | takeOption {word : Word} {rest : List Word} {option : CommandOption}
      (hstage : walk.stage = .option option) (hwords : walk.words = word :: rest) :
      Goes catalog memory walk (.takeOption option (walk.persists option)) memory
  | repeatSlot {word : Word} {rest : List Word} {slot : Slot} {slots : List Slot}
      {fromOption fromVariadic persist : Bool} {after : Memory σ}
      (hstage : walk.stage = .arguments (slot :: slots) fromOption fromVariadic persist)
      (hwords : walk.words = word :: rest) (hcomplete : word.complete = true)
      (hpasses : Passes catalog memory walk word after) (hvariadic : slot.isVariadic = true) :
      Goes catalog memory walk (.takeValue (slot :: slots) fromOption true persist) after
  | fillSlot {word : Word} {rest : List Word} {slot : Slot} {slots : List Slot}
      {fromOption fromVariadic persist : Bool} {after : Memory σ}
      (hstage : walk.stage = .arguments (slot :: slots) fromOption fromVariadic persist)
      (hwords : walk.words = word :: rest) (hcomplete : word.complete = true)
      (hpasses : Passes catalog memory walk word after) (hvariadic : slot.isVariadic = false)
      (hcommand : slot.isCommand = false) :
      Goes catalog memory walk (.takeValue slots fromOption false persist) after
  | delegate {word : Word} {rest : List Word} {slot : Slot} {slots : List Slot}
      {fromOption fromVariadic persist : Bool} {root : CatalogNode} {middle after : Memory σ}
      (hstage : walk.stage = .arguments (slot :: slots) fromOption fromVariadic persist)
      (hwords : walk.words = word :: rest) (hcomplete : word.complete = true)
      (hpasses : Passes catalog memory walk word middle) (hvariadic : slot.isVariadic = false)
      (hcommand : slot.isCommand = true) (hmore : rest ≠ [])
      (hroot : (catalog.loadRoot word.text).run middle = (some root, after)) :
      Goes catalog memory walk (.delegate root) after

/-! ## What is decided is a rule -/

/-- An option is gone on to only if the word names it. -/
theorem decideOption_go {hrank : 0 < rank walk.stage} {smaller}
    (h : walk.decideOption word hrank = .go move smaller) :
    ∃ option, CommandOption.find? word.text walk.inherited walk.node.options = some option ∧
      move = .beginOption option := by
  unfold decideOption at h
  split at h
  · rename_i option hfound
    cases h
    exact ⟨option, hfound, rfl⟩
  · cases h

/-- At a command: an option, a child, or the first argument. The cases are those of steps 3a to 3d
of `matchSubcommand` (specification, § 4.3), with the failing ones ruled out because a move was
made. -/
theorem goes_of_decideCommand {hne : walk.words ≠ []} {hrank : rank walk.stage = 2} {smaller}
    {argsExhausted argsUsed : Bool} (hstage : walk.stage = .command argsExhausted argsUsed)
    (hwords : walk.words = word :: rest) (hcomplete : word.complete = true)
    (h : (walk.decideCommand catalog word hne hrank).run memory = (.go move smaller, after)) :
    Goes catalog memory walk move after := by
  have hopen : walk.isOpen = true := by simp only [isOpen, hstage]
  unfold decideCommand at h
  split at h
  · rename_i hoption
    obtain ⟨hdecided, rfl⟩ := Prod.mk.inj h
    obtain ⟨option, hfound, rfl⟩ := decideOption_go hdecided
    exact .beginOption hwords hcomplete hopen hoption hfound
  · rename_i hoption
    have hplain : word.isOption = false := by simpa using hoption
    obtain ⟨child?, middle, hchild, h⟩ := Recall.exists_of_run_bind h
    -- The lookup has happened either way: the memory it left is the one the move leaves.
    cases child? with
    | some child =>
      cases h
      exact .enter hwords hcomplete hopen hplain hchild
    | none =>
      dsimp only at h
      split at h
      · cases h
      · rename_i hargs
        cases h
        exact .beginArguments hstage hwords hcomplete (.missed hopen hplain hchild) hargs

/-- A word that was left to the arguments repeats the slot, names a command, or fills the slot: step
5 of `matchArgument` (specification, § 4.3), asked in this order, so a variadic slot is repeated
even where it is a command slot as well. -/
theorem goes_of_decideValue {hne : walk.words ≠ []} {smaller}
    (hstage : walk.stage = .arguments (slot :: slots) fromOption fromVariadic persist)
    (hwords : walk.words = word :: rest) (hcomplete : word.complete = true)
    (hpasses : Passes catalog memory walk word middle)
    (h : (walk.decideValue catalog word slot slots fromOption persist hne).run middle =
      (.go move smaller, after)) :
    Goes catalog memory walk move after := by
  unfold decideValue at h
  by_cases hvariadic : slot.isVariadic = true
  · rw [if_pos hvariadic] at h
    cases h
    exact .repeatSlot hstage hwords hcomplete hpasses hvariadic
  · rw [if_neg hvariadic] at h
    have hscalar : slot.isVariadic = false := by simpa using hvariadic
    by_cases hcommand : slot.isCommand = true
    · rw [if_pos hcommand] at h
      by_cases hlast : walk.words.tail = []
      · rw [if_pos hlast] at h
        cases h
      · rw [if_neg hlast] at h
        obtain ⟨root?, last, hroot, h⟩ := Recall.exists_of_run_bind h
        have hmore : rest ≠ [] := by simpa only [hwords, List.tail_cons] using hlast
        cases root? with
        | some root =>
          cases h
          exact .delegate hstage hwords hcomplete hpasses hscalar hcommand hmore hroot
        | none => cases h
    · rw [if_neg hcommand] at h
      cases h
      exact .fillSlot hstage hwords hcomplete hpasses hscalar (by simpa using hcommand)

/-- In a list of arguments, options and children come first where every slot may
be skipped. -/
theorem goes_of_decideArgument {hne : walk.words ≠ []} {hrank : 0 < rank walk.stage} {smaller}
    (hstage : walk.stage = .arguments (slot :: slots) fromOption fromVariadic persist)
    (hwords : walk.words = word :: rest) (hcomplete : word.complete = true)
    (h : (walk.decideArgument catalog word slot slots fromOption fromVariadic persist hne hrank).run
      memory = (.go move smaller, after)) :
    Goes catalog memory walk move after := by
  have hisOpen : walk.isOpen = allOptional (slot :: slots) fromVariadic := by
    simp only [isOpen, hstage]
  unfold decideArgument at h
  by_cases hopen : allOptional (slot :: slots) fromVariadic = true
  · rw [if_pos hopen] at h
    rw [← hisOpen] at hopen
    by_cases hoption : word.isOption = true
    · rw [if_pos hoption] at h
      obtain ⟨hdecided, rfl⟩ := Prod.mk.inj h
      obtain ⟨option, hfound, rfl⟩ := decideOption_go hdecided
      exact .beginOption hwords hcomplete hopen hoption hfound
    · rw [if_neg hoption] at h
      have hplain : word.isOption = false := by simpa using hoption
      obtain ⟨child?, middle, hchild, h⟩ := Recall.exists_of_run_bind h
      cases child? with
      | some child =>
        cases h
        exact .enter hwords hcomplete hopen hplain hchild
      | none =>
        exact goes_of_decideValue hstage hwords hcomplete (.missed hopen hplain hchild) h
  · rw [if_neg hopen] at h
    have hshut : walk.isOpen = false := by rw [hisOpen]; simpa using hopen
    exact goes_of_decideValue hstage hwords hcomplete (.shut hshut) h

/-- **Every move a walk decides on is one of the rules.** The cases are the stages, then whether
there is a complete word in front; each of the three stages that ask for one has its own lemma
above. All later proofs about walks go through this lemma and never open `decide` again. -/
theorem goes_of_decide {smaller}
    (h : (walk.decide catalog directory shell).run memory = (.go move smaller, after)) :
    Goes catalog memory walk move after := by
  unfold decide at h
  split at h
  · rename_i argsExhausted argsUsed hstage
    dsimp only at h
    split at h
    · cases h
    · rename_i word rest hwords
      split at h
      · rename_i hcomplete
        exact goes_of_decideCommand hstage hwords hcomplete h
      · cases h
  -- No slot is left: the only stage that moves on without looking at a word.
  · rename_i fromOption fromVariadic persist hstage
    cases h
    exact .endArguments hstage
  · rename_i slot slots fromOption fromVariadic persist hstage
    dsimp only at h
    split at h
    · cases h
    · rename_i word rest hwords
      split at h
      · rename_i hcomplete
        exact goes_of_decideArgument hstage hwords hcomplete h
      · cases h
  · rename_i option hstage
    split at h
    · cases h
    · rename_i word rest hwords
      cases h
      exact .takeOption hstage hwords

/-! ## What a rule allows is decided -/

/-- A word that passes is a value, and is decided on in the memory that looking
for a child left. -/
theorem decideArgument_of_passes {hne : walk.words ≠ []} {hrank : 0 < rank walk.stage}
    (hstage : walk.stage = .arguments (slot :: slots) fromOption fromVariadic persist)
    (hpasses : Passes catalog memory walk word middle) :
    (walk.decideArgument catalog word slot slots fromOption fromVariadic persist hne hrank).run
      memory = (walk.decideValue catalog word slot slots fromOption persist hne).run middle := by
  have hisOpen : walk.isOpen = allOptional (slot :: slots) fromVariadic := by
    simp only [isOpen, hstage]
  unfold decideArgument
  cases hpasses with
  | shut hshut => rw [if_neg (by rw [← hisOpen, hshut]; exact Bool.false_ne_true)]
  | missed hopen hplain hmissed =>
    rw [if_pos (by rw [← hisOpen, hopen]), if_neg (by rw [hplain]; exact Bool.false_ne_true),
      Recall.run_bind_of hmissed]

/-- An open place is a command, or slots that may all be skipped. -/
theorem stage_of_isOpen (hopen : walk.isOpen = true) :
    (∃ argsExhausted argsUsed, walk.stage = .command argsExhausted argsUsed) ∨
      ∃ slot slots fromOption fromVariadic persist,
        walk.stage = .arguments (slot :: slots) fromOption fromVariadic persist ∧
          allOptional (slot :: slots) fromVariadic = true := by
  unfold isOpen at hopen
  split at hopen
  · rename_i hstage
    exact .inl ⟨_, _, hstage⟩
  · cases hopen
  · rename_i hstage
    exact .inr ⟨_, _, _, _, _, hstage, hopen⟩
  · cases hopen

/-- Where options are looked for, one can still be gone on to. -/
theorem rank_of_isOpen (hopen : walk.isOpen = true) : 0 < rank walk.stage := by
  obtain ⟨_, _, hstage⟩ | ⟨_, _, _, _, _, hstage, -⟩ := stage_of_isOpen hopen
  · rw [hstage]
    exact Nat.two_pos
  · rw [hstage]
    exact Nat.one_pos

/-- Each rule makes the measure smaller, so a walk made of rules can be run. A rule that takes a
word shortens the words, which weigh most; one that takes none moves to a stage of lower rank. -/
theorem Goes.smaller (h : Goes catalog memory walk move after) :
    (walk.perform move).measure < walk.measure := by
  cases h with
  | beginOption _ _ hopen =>
    have hrank := rank_of_isOpen hopen
    have hzero : ∀ option, rank (.option option) = 0 := fun _ => rfl
    simp only [measure, perform, hzero]
    omega
  | beginArguments hstage _ _ _ hargs =>
    have hrank : rank walk.stage = 2 := by rw [hstage]; rfl
    simp only [measure, perform, hrank, rank_arguments_of_ne_nil hargs]
    omega
  | endArguments hstage =>
    simp only [measure, perform, hstage, rank]
    omega
  | enter hwords => exact measure_lt_of_tail (by rw [hwords]; exact List.cons_ne_nil _ _) rfl
  | delegate _ hwords => exact measure_lt_of_tail (by rw [hwords]; exact List.cons_ne_nil _ _) rfl
  | takeOption _ hwords | repeatSlot _ hwords | fillSlot _ hwords =>
    exact measure_lt_of_tail (by rw [hwords]; exact List.cons_ne_nil _ _) (words_take walk _)

/-- A word that names an option is gone on to. -/
theorem decideOption_of_found {hrank : 0 < rank walk.stage} {option : CommandOption}
    {smaller : (walk.perform (.beginOption option)).measure < walk.measure}
    (hfound : CommandOption.find? word.text walk.inherited walk.node.options = some option) :
    walk.decideOption word hrank = .go (.beginOption option) smaller := by
  unfold decideOption
  split
  · rename_i found heq
    rw [hfound] at heq
    cases heq
    rfl
  · rename_i heq
    rw [hfound] at heq
    cases heq

/-- At a command, a complete word is decided on as a command does. -/
theorem decide_of_command {argsExhausted argsUsed : Bool}
    (hstage : walk.stage = .command argsExhausted argsUsed) (hwords : walk.words = word :: rest)
    (hcomplete : word.complete = true) : ∃ hne hrank, walk.decide catalog directory shell =
      walk.decideCommand catalog word hne hrank := by
  obtain ⟨words, node, inherited, accepted, stage⟩ := walk
  dsimp only at hstage hwords
  subst hstage hwords
  refine ⟨List.cons_ne_nil _ _, rfl, ?_⟩
  simp only [decide, hcomplete, if_true]

/-- At a slot, a complete word is decided on as an argument. -/
theorem decide_of_arguments
    (hstage : walk.stage = .arguments (slot :: slots) fromOption fromVariadic persist)
    (hwords : walk.words = word :: rest) (hcomplete : word.complete = true) :
    ∃ hne hrank, walk.decide catalog directory shell =
      walk.decideArgument catalog word slot slots fromOption fromVariadic persist hne hrank := by
  obtain ⟨words, node, inherited, accepted, stage⟩ := walk
  dsimp only at hstage hwords
  subst hstage hwords
  refine ⟨List.cons_ne_nil _ _, Nat.one_pos, ?_⟩
  simp only [decide, hcomplete, if_true]

/-- **Every rule is a move that a walk decides on.** The converse of `goes_of_decide`: what the rule
asks for settles each question in the order in which the program asks it. Where the rule speaks of
an open place only, the place is a command or a list of slots, and both ways have to be run. -/
theorem decide_of_goes (h : Goes catalog memory walk move after) :
    (walk.decide catalog directory shell).run memory = (.go move h.smaller, after) := by
  cases h with
  | beginOption hwords hcomplete hopen hoption hfound =>
    obtain ⟨_, _, hstage⟩ | ⟨_, _, _, _, _, hstage, hskip⟩ := stage_of_isOpen hopen
    · obtain ⟨hne, hrank, hdecide⟩ := decide_of_command hstage hwords hcomplete
      rw [hdecide, decideCommand, if_pos hoption, decideOption_of_found hfound]
      rfl
    · obtain ⟨hne, hrank, hdecide⟩ := decide_of_arguments hstage hwords hcomplete
      rw [hdecide, decideArgument, if_pos hskip, if_pos hoption, decideOption_of_found hfound]
      rfl
  | enter hwords hcomplete hopen hplain hchild =>
    have hother := Bool.eq_false_iff.mp hplain
    obtain ⟨_, _, hstage⟩ | ⟨_, _, _, _, _, hstage, hskip⟩ := stage_of_isOpen hopen
    · obtain ⟨hne, hrank, hdecide⟩ := decide_of_command hstage hwords hcomplete
      rw [hdecide, decideCommand, if_neg hother, Recall.run_bind_of hchild]
      rfl
    · obtain ⟨hne, hrank, hdecide⟩ := decide_of_arguments hstage hwords hcomplete
      rw [hdecide, decideArgument, if_pos hskip, if_neg hother, Recall.run_bind_of hchild]
      rfl
  | beginArguments hstage hwords hcomplete hpasses hargs =>
    -- A command is always open, so the word cannot have passed unseen.
    cases hpasses with
    | shut hshut =>
      simp only [isOpen, hstage] at hshut
      cases hshut
    | missed hopen hplain hmissed =>
      have hother := Bool.eq_false_iff.mp hplain
      obtain ⟨hne, hrank, hdecide⟩ := decide_of_command hstage hwords hcomplete
      rw [hdecide, decideCommand, if_neg hother, Recall.run_bind_of hmissed]
      simp only [dif_neg hargs]
      rfl
  | endArguments hstage =>
    obtain ⟨words, node, inherited, accepted, stage⟩ := walk
    dsimp only at hstage
    subst hstage
    rfl
  | takeOption hstage hwords =>
    obtain ⟨words, node, inherited, accepted, stage⟩ := walk
    dsimp only at hstage hwords
    subst hstage hwords
    rfl
  | repeatSlot hstage hwords hcomplete hpasses hvariadic =>
    obtain ⟨hne, hrank, hdecide⟩ := decide_of_arguments hstage hwords hcomplete
    rw [hdecide, decideArgument_of_passes hstage hpasses, decideValue, if_pos hvariadic]
    rfl
  | fillSlot hstage hwords hcomplete hpasses hvariadic hcommand =>
    obtain ⟨hne, hrank, hdecide⟩ := decide_of_arguments hstage hwords hcomplete
    rw [hdecide, decideArgument_of_passes hstage hpasses, decideValue]
    simp only [hvariadic, hcommand, Bool.false_eq_true, if_false]
    rfl
  | delegate hstage hwords hcomplete hpasses hvariadic hcommand hmore hroot =>
    obtain ⟨hne, hrank, hdecide⟩ := decide_of_arguments hstage hwords hcomplete
    have htail : walk.words.tail ≠ [] := by rw [hwords]; exact hmore
    rw [hdecide, decideArgument_of_passes hstage hpasses, decideValue]
    simp only [hvariadic, hcommand, Bool.false_eq_true, if_false, if_true, htail]
    rw [Recall.run_bind_of hroot]
    rfl

/-! ## Arriving -/

/-- What a walk that stops here waits for. -/
def expected? (walk : Walk) : Option Expected :=
  match walk.stage with
  | .command argsExhausted argsUsed => some (.anything argsExhausted argsUsed)
  | .arguments [] _ _ _ => none
  | .arguments (slot :: slots) _ fromVariadic _ =>
    some (.value slot (allOptional (slot :: slots) fromVariadic))
  | .option _ => none

/-- The walk has arrived: it waits for something, and no complete word is left to look at. -/
def Arrives (walk : Walk) (directory : String) (shell : Shell) (context : Context Nat) : Prop :=
  (∀ word ∈ walk.words.head?, word.complete = false) ∧
    ∃ expected, walk.expected? = some expected ∧ context = walk.context directory shell expected

/-- A walk that has arrived says so, and asks nothing of the catalog. -/
theorem decide_of_arrives {context : Context Nat} (h : walk.Arrives directory shell context) :
    (walk.decide catalog directory shell).run memory = (.arrive context, memory) := by
  obtain ⟨words, node, inherited, accepted, stage⟩ := walk
  obtain ⟨hwaits, expected, hexpected, rfl⟩ := h
  match stage, words, hexpected, hwaits with
  | .command _ _, [], hexpected, _ =>
    cases hexpected
    rfl
  | .command _ _, word :: _, hexpected, hwaits =>
    cases hexpected
    have hcomplete : word.complete = false := hwaits word rfl
    simp only [decide, hcomplete, Bool.false_eq_true, if_false]
    rfl
  | .arguments (_ :: _) _ _ _, [], hexpected, _ =>
    cases hexpected
    rfl
  | .arguments (_ :: _) _ _ _, word :: _, hexpected, hwaits =>
    cases hexpected
    have hcomplete : word.complete = false := hwaits word rfl
    simp only [decide, hcomplete, Bool.false_eq_true, if_false]
    rfl

/-- A turn that moves on or refuses: what every complete word comes to. -/
def Turn.settled {walk : Walk} : Turn walk → Bool
  | .go _ _ | .refuse => true
  | .arrive _ | .lost _ => false

/-- A word where an option is looked for is an option that is there, or ends the walk. -/
theorem settled_decideOption (hrank : 0 < rank walk.stage) :
    (walk.decideOption word hrank).settled = true := by
  unfold decideOption
  split <;> rfl

theorem settled_decideCommand {hne : walk.words ≠ []} {hrank : rank walk.stage = 2} :
    ((walk.decideCommand catalog word hne hrank).run memory).1.settled = true := by
  unfold decideCommand
  split
  · exact settled_decideOption (by omega)
  · rw [StateT.run_bind]
    obtain ⟨child?, middle⟩ := (catalog.resolveChild walk.node word.text).run memory
    cases child? with
    | some child => rfl
    | none =>
      dsimp only [bind]
      split <;> rfl

theorem settled_decideValue {hne : walk.words ≠ []} :
    ((walk.decideValue catalog word slot slots fromOption persist hne).run memory).1.settled =
      true := by
  unfold decideValue
  split
  · rfl
  · split
    · split
      · rfl
      · rw [StateT.run_bind]
        obtain ⟨root?, middle⟩ := (catalog.loadRoot word.text).run memory
        cases root? <;> rfl
    · rfl

theorem settled_decideArgument {hne : walk.words ≠ []} {hrank : 0 < rank walk.stage} :
    ((walk.decideArgument catalog word slot slots fromOption fromVariadic persist hne hrank).run
      memory).1.settled = true := by
  unfold decideArgument
  split
  · split
    · exact settled_decideOption hrank
    · rw [StateT.run_bind]
      obtain ⟨child?, middle⟩ := (catalog.resolveChild walk.node word.text).run memory
      cases child? with
      | some child => rfl
      | none => exact settled_decideValue
  · exact settled_decideValue

/-- A walk that says it has arrived has. -/
theorem arrives_of_decide {context : Context Nat}
    (h : (walk.decide catalog directory shell).run memory = (.arrive context, after)) :
    walk.Arrives directory shell context ∧ after = memory := by
  -- Turns on complete words are settled, so the walk can only arrive where there is none.
  have hsettled : ∀ {action : Recall σ (Turn walk)}, (action.run memory).1.settled = true →
      action.run memory ≠ (.arrive context, after) := by
    intro action hsettled heq
    rw [heq] at hsettled
    cases hsettled
  unfold decide at h
  split at h
  · rename_i argsExhausted argsUsed hstage
    have hexpected : walk.expected? = some (.anything argsExhausted argsUsed) := by
      simp only [expected?, hstage]
    split at h
    · rename_i hwords
      cases h
      exact ⟨⟨by simp [hwords], _, hexpected, rfl⟩, rfl⟩
    · rename_i word rest hwords
      split at h
      · exact absurd h (hsettled settled_decideCommand)
      · rename_i hcomplete
        cases h
        exact ⟨⟨by simpa [hwords] using hcomplete, _, hexpected, rfl⟩, rfl⟩
  · cases h
  · rename_i slot slots fromOption fromVariadic persist hstage
    have hexpected : walk.expected? =
        some (.value slot (allOptional (slot :: slots) fromVariadic)) := by
      simp only [expected?, hstage]
    split at h
    · rename_i hwords
      cases h
      exact ⟨⟨by simp [hwords], _, hexpected, rfl⟩, rfl⟩
    · rename_i word rest hwords
      split at h
      · exact absurd h (hsettled settled_decideArgument)
      · rename_i hcomplete
        cases h
        exact ⟨⟨by simpa [hwords] using hcomplete, _, hexpected, rfl⟩, rfl⟩
  · split at h <;> cases h

/-! ## Whole walks -/

/-- The turns that lead from one walk to another, and what is remembered then. -/
inductive Reaches (catalog : Catalog σ) :
    Memory σ → Walk → List (Walk × Move) → Walk → Memory σ → Prop where
  | here (memory : Memory σ) (walk : Walk) : Reaches catalog memory walk [] walk memory
  | go {memory middle after : Memory σ} {walk last : Walk} {move : Move}
      {turns : List (Walk × Move)} (hgoes : Goes catalog memory walk move middle)
      (hreaches : Reaches catalog middle (walk.perform move) turns last after) :
      Reaches catalog memory walk ((walk, move) :: turns) last after

/-- How a turn ends the walk, if it does. -/
def Turn.ending? {walk : Walk} : Turn walk → Option Ending
  | .go _ _ => none
  | .arrive context => some (.arrived context)
  | .refuse => some .refused
  | .lost reason => some (.lost reason)

/-- Moves that lead to a walk whose turn ends it are what `run` reports. -/
theorem run_of_ending {last : Walk} {turns : List (Walk × Move)} {turn : Turn last}
    {ending : Ending} (hreaches : Reaches catalog memory walk turns last middle)
    (hlast : (last.decide catalog directory shell).run middle = (turn, after))
    (hending : turn.ending? = some ending) :
    (run catalog directory shell walk).run memory = ((turns, ending), after) := by
  induction hreaches with
  | here memory walk =>
    rw [run, Recall.run_bind_of hlast]
    cases turn <;> cases hending <;> rfl
  | go hgoes _ ih =>
    rw [run, Recall.run_bind_of (decide_of_goes hgoes)]
    dsimp only
    rw [Recall.run_bind_of (ih hlast hending)]
    rfl

/-- A walk that has arrived ends there. -/
theorem run_of_reaches {last : Walk} {turns : List (Walk × Move)} {context : Context Nat}
    (hreaches : Reaches catalog memory walk turns last after)
    (harrives : last.Arrives directory shell context) :
    (run catalog directory shell walk).run memory = ((turns, .arrived context), after) :=
  run_of_ending hreaches (decide_of_arrives harrives) rfl

/-- The other way round, for every ending: what `run` reports are the moves that lead to a walk
whose turn ends it. The measure carries the induction, as it carries `run`, and `goes_of_decide`
turns the move that `run` made into a rule. With `run_of_ending` this makes the relation and the
program interchangeable for arrivals, refusals and losses alike. -/
theorem exists_reaches_of_run {memory after : Memory σ} {walk : Walk}
    {turns : List (Walk × Move)} {ending : Ending}
    (h : (run catalog directory shell walk).run memory = ((turns, ending), after)) :
    ∃ last middle turn, Reaches catalog memory walk turns last middle ∧
      (last.decide catalog directory shell).run middle = (turn, after) ∧
      turn.ending? = some ending := by
  rw [run] at h
  obtain ⟨turn, middle, hdecided, h⟩ := Recall.exists_of_run_bind h
  cases turn with
  | go move smaller =>
    obtain ⟨⟨turns', ending'⟩, final, hrun, h⟩ := Recall.exists_of_run_bind h
    cases h
    obtain ⟨last, there, turn, hreaches, hlast, hending⟩ := exists_reaches_of_run hrun
    exact ⟨last, there, turn, .go (goes_of_decide hdecided) hreaches, hlast, hending⟩
  | arrive | refuse | lost =>
    cases h
    exact ⟨walk, memory, _, .here memory walk, hdecided, rfl⟩
termination_by walk.measure

/-- A walk that `run` says arrived has. -/
theorem reaches_of_run {turns : List (Walk × Move)} {context : Context Nat}
    (h : (run catalog directory shell walk).run memory = ((turns, .arrived context), after)) :
    ∃ last, Reaches catalog memory walk turns last after ∧
      last.Arrives directory shell context := by
  obtain ⟨last, middle, turn, hreaches, hlast, hending⟩ := exists_reaches_of_run h
  cases turn with
  | arrive =>
    cases hending
    obtain ⟨harrives, rfl⟩ := arrives_of_decide hlast
    exact ⟨last, hreaches, harrives⟩
  | go | refuse | lost => cases hending

/-- **A walk arrives exactly if the rules lead it to where it stands still.** What the engine offers
is read off the context in which a walk arrives, so this is where statements about suggestions
become statements about `Reaches`: a step lemma on `Goes` and an induction on the turns. -/
theorem run_eq_arrived_iff {turns : List (Walk × Move)} {context : Context Nat} :
    (run catalog directory shell walk).run memory = ((turns, .arrived context), after) ↔
      ∃ last, Reaches catalog memory walk turns last after ∧
        last.Arrives directory shell context := by
  constructor
  · exact reaches_of_run
  · rintro ⟨last, hreaches, harrives⟩
    exact run_of_reaches hreaches harrives

end CommandCompletion.Walk

namespace CommandCompletion.Catalog

variable {σ : Type} {catalog : Catalog σ} {directory : String} {shell : Shell}
variable {memory after : Memory σ} {words : List Word} {root : CatalogNode}

/-- A place is found exactly if the walk down from the root arrives there. -/
theorem locate_eq_some_iff {context : Context Nat} :
    (catalog.locate directory shell words root).run memory = (.ok (some context), after) ↔
      ∃ turns, (Walk.run catalog directory shell { words := words, node := root }).run memory =
        ((turns, .arrived context), after) := by
  constructor
  · intro h
    obtain ⟨⟨turns, ending⟩, middle, hrun, h⟩ := Recall.exists_of_run_bind h
    cases ending with
    | arrived =>
      cases h
      exact ⟨turns, hrun⟩
    | refused => cases h
    | lost => cases h
  · rintro ⟨turns, hrun⟩
    unfold locate
    rw [Recall.run_bind_of hrun]
    rfl

end CommandCompletion.Catalog
