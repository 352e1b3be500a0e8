/-
Which words still count where a walk has arrived.

Each word that a walk takes is taken as something (`Use`): as the name of an
option, as a value for the option given last, as a positional argument, as the
name of a child, or as the name of a command that takes over. The uses are read
off the turns alone; whether an option counts for descendants too is decided by
the option and by what was inherited when it was given, not by the flag that the
walk carries along.

The words taken fall into three stretches: up to the last command that took over,
from there to the last child that was entered, and from there to the end. What is
accepted is made of the words of the second stretch that belong to a persistent
option and of all words of the third, in order (`accepted_exact`).
-/
import CommandCompletion.Proofs.OptionScope

set_option autoImplicit false

namespace CommandCompletion.Walk

variable {σ : Type} {catalog : Catalog σ} {directory : String} {shell : Shell}
variable {memory after : Memory σ} {walk last : Walk} {move : Move} {turns : List (Walk × Move)}

/-! ## What words are taken as -/

/-- An option as it was given, with what was inherited at that moment. The latter has to be kept
since a later descent changes it, and whether the option counts for descendants depends on it. -/
structure Given where
  option : CommandOption
  inherited : List CommandOption

/-- The option is flagged persistent, or shares an alias with an option that was
inherited when it was given. -/
def Given.persists (given : Given) : Bool :=
  given.option.isPersistent || given.inherited.any fun taken => taken.sharesName given.option

/-- What a word is taken as. A turn that takes a word settles this for good: matching never goes
back on what a complete word was taken as (specification, § 4.3). -/
inductive Use where
  /-- The name of an option. -/
  | option (given : Given)
  /-- A value for an option. -/
  | value (given : Given)
  /-- A positional argument of the node. -/
  | argument
  /-- The name of the child that is entered. -/
  | child
  /-- The name of the command that takes over. -/
  | command

/-- The word belongs to an option that counts for descendants. -/
def Use.persists : Use → Bool
  | .option given | .value given => given.persists
  | .argument | .child | .command => false

/-- A word that was taken. -/
structure Taken where
  word : Word
  use : Use

/-- The word as it is kept: flagged if it belongs to an option that counts for
descendants. -/
def Taken.kept (taken : Taken) : Word := taken.word.withPersistent taken.use.persists

/-- What a move takes the next word as, if it takes it. `owner` is the option
whose values are being taken. -/
def use? (owner : Option Given) (walk : Walk) : Move → Option Use
  | .takeOption option _ => some (.option ⟨option, walk.inherited⟩)
  | .takeValue _ _ _ _ => some (owner.elim .argument .value)
  | .enter _ => some .child
  | .delegate _ => some .command
  | .beginArguments | .endArguments _ | .beginOption _ => none

/-- The option whose values can come after a move: the one just given, until
anything but a value comes. -/
def ownerAfter (owner : Option Given) (walk : Walk) : Move → Option Given
  | .takeOption option _ => some ⟨option, walk.inherited⟩
  | .takeValue _ _ _ _ => owner
  | _ => none

/-- The word that a move takes, if it takes one. -/
def takenBy (owner : Option Given) (walk : Walk) (move : Move) : List Taken :=
  match walk.words, use? owner walk move with
  | word :: _, some use => [⟨word, use⟩]
  | _, _ => []

/-- The words that some turns take. -/
def takenFrom (owner : Option Given) : List (Walk × Move) → List Taken
  | [] => []
  | (walk, move) :: turns =>
    takenBy owner walk move ++ takenFrom (ownerAfter owner walk move) turns

/-- The words that the turns of a walk take. -/
def taken (turns : List (Walk × Move)) : List Taken := takenFrom none turns

theorem takenBy_of_use {owner : Option Given} {word : Word} {rest : List Word} {use : Use}
    (hwords : walk.words = word :: rest) (huse : use? owner walk move = some use) :
    takenBy owner walk move = [⟨word, use⟩] := by
  simp only [takenBy, hwords, huse]

theorem takenBy_of_none {owner : Option Given} (huse : use? owner walk move = none) :
    takenBy owner walk move = [] := by
  unfold takenBy
  rw [huse]
  split
  · rename_i h
    cases h
  · rfl

/-- What a move takes is the word in front, and what it leaves is the rest: no word is skipped or
taken twice. -/
theorem Goes.takenBy_append (h : Goes catalog memory walk move after) (owner : Option Given) :
    (takenBy owner walk move).map (fun taken => taken.word) ++ (walk.perform move).words =
      walk.words := by
  have front : ∀ {word rest use}, walk.words = word :: rest → use? owner walk move = some use →
      (walk.perform move).words = walk.words.tail →
      (takenBy owner walk move).map (fun taken => taken.word) ++ (walk.perform move).words =
        walk.words := by
    intro word rest use hwords huse htail
    rw [takenBy_of_use hwords huse, htail, hwords]
    rfl
  cases h with
  | beginOption | beginArguments | endArguments =>
    rw [takenBy_of_none rfl]
    rfl
  | enter hwords => exact front hwords rfl rfl
  | delegate _ hwords => exact front hwords rfl rfl
  | takeOption _ hwords | repeatSlot _ hwords | fillSlot _ hwords =>
    exact front hwords rfl (words_take walk _)

/-- The words taken are those in front of what is left, in order. -/
theorem Reaches.takenFrom_append (h : Reaches catalog memory walk turns last after)
    (owner : Option Given) :
    (takenFrom owner turns).map (fun taken => taken.word) ++ last.words = walk.words := by
  induction h generalizing owner with
  | here => rfl
  | go hgoes _ ih =>
    rw [takenFrom, List.map_append, List.append_assoc, ih, hgoes.takenBy_append]

/-! ## Three stretches -/

/-- The words taken, cut after the last command that took over, and after the last child that was
entered since. The cuts are determined by the history; they are named here so that a step can say
how each kind of word moves them. -/
structure Stretches (history before between current : List Taken) : Prop where
  whole : history = before ++ (between ++ current)
  before_ends : ∀ taken ∈ before.getLast?, taken.use = .command
  between_ends : ∀ taken ∈ between.getLast?, taken.use = .child
  noCommand : ∀ taken ∈ between ++ current, taken.use ≠ .command
  noChild : ∀ taken ∈ current, taken.use ≠ .child

/-- The words that still count: those of persistent options from the second stretch, and all of the
third. The first stretch counts for nothing, because a command that takes over starts afresh. -/
def counting (between current : List Taken) : List Word :=
  (between.filter fun taken => taken.use.persists).map Taken.kept ++ current.map Taken.kept

variable {history before between current : List Taken} {new : Taken}

theorem Stretches.nil : Stretches [] [] [] [] where
  whole := rfl
  before_ends := by simp
  between_ends := by simp
  noCommand := by simp
  noChild := by simp

/-- A command that takes over ends the first stretch. -/
theorem Stretches.command (history : List Taken) (hnew : new.use = .command) :
    Stretches (history ++ [new]) (history ++ [new]) [] [] where
  whole := by simp
  before_ends := by
    intro taken hlast
    rw [List.getLast?_concat] at hlast
    cases hlast
    exact hnew
  between_ends := by simp
  noCommand := by simp
  noChild := by simp

/-- A child that is entered ends the second. -/
theorem Stretches.child (h : Stretches history before between current) (hnew : new.use = .child) :
    Stretches (history ++ [new]) before (between ++ current ++ [new]) [] where
  whole := by simp [h.whole]
  before_ends := h.before_ends
  between_ends := by
    intro taken hlast
    rw [List.getLast?_concat] at hlast
    cases hlast
    exact hnew
  noCommand := by
    intro taken hmem
    rw [List.append_nil, List.mem_append, List.mem_singleton] at hmem
    rcases hmem with hmem | rfl
    · exact h.noCommand taken hmem
    · rw [hnew]
      exact Use.noConfusion
  noChild := by simp

/-- Any other word goes to the third. -/
theorem Stretches.other (h : Stretches history before between current)
    (hcommand : new.use ≠ .command) (hchild : new.use ≠ .child) :
    Stretches (history ++ [new]) before between (current ++ [new]) where
  whole := by simp [h.whole]
  before_ends := h.before_ends
  between_ends := h.between_ends
  noCommand := by
    intro taken hmem
    rw [← List.append_assoc, List.mem_append, List.mem_singleton] at hmem
    rcases hmem with hmem | rfl
    · exact h.noCommand taken hmem
    · exact hcommand
  noChild := by
    intro taken hmem
    rw [List.mem_append, List.mem_singleton] at hmem
    rcases hmem with hmem | rfl
    · exact h.noChild taken hmem
    · exact hchild

/-- On the way into a child, only the flagged words are kept (`filterPersistentTokens`;
specification, § 4.2). Filtering once more changes nothing for what an earlier descent has left. -/
theorem counting_child (between current : List Taken) (hnew : new.use = .child) :
    counting (between ++ current ++ [new]) [] =
      (counting between current).filter fun word => word.isPersistent := by
  have hkept : ∀ list : List Taken, (list.map Taken.kept).filter (fun word => word.isPersistent) =
      (list.filter fun taken => taken.use.persists).map Taken.kept := by
    intro list
    rw [List.filter_map]
    rfl
  have hname : [new].filter (fun taken => taken.use.persists) = [] := by
    rw [List.filter_cons_of_neg, List.filter_nil]
    rw [hnew]
    exact Bool.false_ne_true
  simp only [counting, List.filter_append, hkept, List.filter_filter, hname, Bool.and_self,
    List.map_append, List.map_nil, List.append_nil]

theorem counting_concat (between current : List Taken) (new : Taken) :
    counting between (current ++ [new]) = counting between current ++ [new.kept] := by
  simp [counting]

/-! ## What is accepted along a walk -/

/-- What the walk has accepted is what counts of the words taken so far, and where arguments are
next, the flag it carries tells whose they are. The last field is what makes a flag a sign of the
walk's own doing: no word that is still to come has one. -/
structure Accounts (history : List Taken) (owner : Option Given) (walk : Walk) : Prop where
  accepted : ∃ before between current, Stretches history before between current ∧
    walk.accepted = counting between current
  flag : ∀ slots fromOption fromVariadic persist,
    walk.stage = .arguments slots fromOption fromVariadic persist →
      persist = owner.any Given.persists
  unflagged : ∀ word ∈ walk.words, word.isPersistent = false

variable {owner : Option Given} {word : Word} {rest : List Word}

/-- A word without a flag gets the one it is taken with. -/
theorem accepted_take (hwords : walk.words = word :: rest) (hword : word.isPersistent = false)
    (persist : Bool) : (walk.take persist).accepted =
      walk.accepted ++ [word.withPersistent persist] := by
  unfold take
  rw [hwords]
  cases persist with
  | true => rfl
  | false =>
    have hsame : word.withPersistent false = word := by
      cases word
      cases hword
      rfl
    simp only [Bool.false_eq_true, if_false, hsame]

/-- A word that is taken by neither a child nor a command counts from then on. -/
theorem Accounts.take {use : Use} (h : Accounts history owner walk)
    (hwords : walk.words = word :: rest) (hcommand : use ≠ .command) (hchild : use ≠ .child) :
    ∃ before between current, Stretches (history ++ [⟨word, use⟩]) before between current ∧
      (walk.take use.persists).accepted = counting between current := by
  obtain ⟨before, between, current, hstretches, haccepted⟩ := h.accepted
  have hword : word.isPersistent = false := h.unflagged word (by rw [hwords]; simp)
  refine ⟨before, between, current ++ [⟨word, use⟩], hstretches.other hcommand hchild, ?_⟩
  rw [accepted_take hwords hword, haccepted, counting_concat]
  rfl

/-- **Each move keeps the account.** One case for each rule: a move that takes no word leaves the
stretches alone, a child or a command moves a cut, every other word joins the third stretch with the
flag that its use gives it. -/
theorem Goes.accounts (h : Goes catalog memory walk move after)
    (hbefore : Accounts history owner walk) :
    Accounts (history ++ takenBy owner walk move) (ownerAfter owner walk move)
      (walk.perform move) := by
  have unflagged : ∀ word ∈ (walk.perform move).words, word.isPersistent = false := by
    intro word hmem
    have hsplit := h.takenBy_append owner
    refine hbefore.unflagged word ?_
    rw [← hsplit]
    exact List.mem_append_right _ hmem
  cases h with
  | beginOption | endArguments =>
    rw [takenBy_of_none rfl, List.append_nil]
    exact ⟨hbefore.accepted, by rintro _ _ _ _ ⟨⟩, unflagged⟩
  | beginArguments =>
    rw [takenBy_of_none rfl, List.append_nil]
    refine ⟨hbefore.accepted, ?_, unflagged⟩
    rintro _ _ _ _ ⟨⟩
    rfl
  | enter hwords =>
    rw [takenBy_of_use hwords rfl]
    refine ⟨?_, by rintro _ _ _ _ ⟨⟩, unflagged⟩
    obtain ⟨before, between, current, hstretches, haccepted⟩ := hbefore.accepted
    have hword := hbefore.unflagged _ (by rw [hwords]; exact List.mem_cons_self)
    refine ⟨_, _, _, hstretches.child rfl, ?_⟩
    rw [counting_child _ _ rfl, ← haccepted]
    show (walk.take false).accepted.filter _ = _
    rw [accepted_take hwords hword, List.filter_append]
    simp [Word.withPersistent]
  | delegate _ hwords =>
    rw [takenBy_of_use hwords rfl]
    exact ⟨⟨_, _, _, .command history rfl, rfl⟩, by rintro _ _ _ _ ⟨⟩, unflagged⟩
  | @takeOption word rest option _ hwords =>
    rw [takenBy_of_use hwords rfl]
    refine ⟨hbefore.take hwords Use.noConfusion Use.noConfusion, ?_, unflagged⟩
    intro slots fromOption fromVariadic persist hstage
    -- The arguments that follow carry the flag the name was taken with.
    have hstage' : (if option.args.isEmpty then Stage.command false false
        else .arguments option.args true false (walk.persists option)) =
      .arguments slots fromOption fromVariadic persist := hstage
    split at hstage'
    · cases hstage'
    · cases hstage'
      rfl
  | @repeatSlot word rest slot slots fromOption fromVariadic persist _ hstage hwords
  | @fillSlot word rest slot slots fromOption fromVariadic persist _ hstage hwords =>
    -- The walk carries one flag for all values of a list; that it is the owner's is part of the
    -- account.
    have hflag := hbefore.flag _ _ _ _ hstage
    have huse : (owner.elim Use.argument Use.value).persists = persist := by
      rw [hflag]
      cases owner <;> rfl
    rw [takenBy_of_use hwords rfl]
    refine ⟨?_, ?_, unflagged⟩
    · show ∃ before between current, Stretches _ before between current ∧
        (walk.take persist).accepted = counting between current
      rw [← huse]
      exact hbefore.take hwords (by cases owner <;> exact Use.noConfusion)
        (by cases owner <;> exact Use.noConfusion)
    · rintro _ _ _ _ ⟨⟩
      exact hflag

/-- The account is kept by a whole walk: induction on the turns, with the history and the owner
general, since both grow with every turn. -/
theorem Reaches.accounts (h : Reaches catalog memory walk turns last after)
    (hstart : Accounts history owner walk) :
    ∃ owner', Accounts (history ++ takenFrom owner turns) owner' last := by
  induction h generalizing history owner with
  | here => exact ⟨owner, by rw [takenFrom, List.append_nil]; exact hstart⟩
  | go hgoes _ ih =>
    rw [takenFrom, ← List.append_assoc]
    exact ih (hgoes.accounts hstart)

/-! ## What is accepted at the place reached -/

/-- What is said of the words that a walk over `words` accepted, if it made these
turns and arrived in `context`. -/
structure AcceptsExactly (words : List Word) (turns : List (Walk × Move))
    (context : Context Nat) : Prop where
  /-- The words taken are the first ones, in order, and the next one is where the
  walk has arrived. -/
  position : ∃ left, words = (taken turns).map (fun taken => taken.word) ++ left ∧
    context.current = left.head?
  accepted : ∃ before between current, Stretches (taken turns) before between current ∧
    context.accepted = (between.filter fun taken => taken.use.persists).map Taken.kept ++
      current.map Taken.kept

/-- **The accepted words are exact, for every walk that arrives** (specification, § 8, third
property: what a persistent option was given stays visible, everything else is gone at the next
boundary). It is the account of the whole walk, read at the place where it has arrived. -/
theorem accepted_exact {words : List Word} {root : CatalogNode} {context : Context Nat}
    (hunflagged : ∀ word ∈ words, word.isPersistent = false)
    (h : (run catalog directory shell { words := words, node := root }).run memory =
      ((turns, .arrived context), after)) : AcceptsExactly words turns context := by
  obtain ⟨last, hreaches, harrives⟩ := reaches_of_run h
  obtain ⟨-, expected, -, hcontext⟩ := harrives
  have hstart : Accounts [] none { words := words, node := root } :=
    ⟨⟨[], [], [], .nil, rfl⟩, by rintro _ _ _ _ ⟨⟩, hunflagged⟩
  obtain ⟨owner, hlast⟩ := hreaches.accounts hstart
  constructor
  · exact ⟨last.words, (hreaches.takenFrom_append none).symm, by rw [hcontext]; rfl⟩
  · rw [hcontext]
    exact hlast.accepted

/-! Over three levels: `--no-pager` is forgotten at the first boundary, `-f`
shares an alias with the inherited `-v`. -/

/-- An option of its own, a persistent one with a value, and options on two
levels below. -/
def historyWords : List Word :=
  ["--no-pager", "-C", "dir", "remote", "-v", "add", "-f"].map (Word.ofText · true) ++
    [Word.emptyAt 36]

theorem accepted_exact_layered : ∃ turns context after,
    (∀ word ∈ historyWords, word.isPersistent = false) ∧
    (run emptyCatalog "/" .bash { words := historyWords, node := layeredRoot }).run
      { world := () } = ((turns, .arrived context), after) ∧
    context.accepted.map (fun word => (word.text, word.isPersistent)) =
      [("-C", true), ("dir", true), ("-v", true), ("-f", true)] ∧
    AcceptsExactly historyWords turns context := by
  have hunflagged : ∀ word ∈ historyWords, word.isPersistent = false := by decide +kernel
  have h : (match ((run emptyCatalog "/" .bash { words := historyWords, node := layeredRoot }).run
      { world := () }).1.2 with
    | .arrived context => context.accepted.map (fun word => (word.text, word.isPersistent)) ==
        [("-C", true), ("dir", true), ("-v", true), ("-f", true)]
    | _ => false) = true := by decide +kernel
  obtain ⟨⟨⟨turns, ending⟩, after⟩, hrun⟩ : ∃ result,
      (run emptyCatalog "/" .bash { words := historyWords, node := layeredRoot }).run
        { world := () } = result := ⟨_, rfl⟩
  rw [hrun] at h
  cases ending with
  | arrived context =>
    exact ⟨turns, context, after, hunflagged, hrun, by simpa using h,
      accepted_exact hunflagged hrun⟩
  | refused => cases h
  | lost => cases h

end CommandCompletion.Walk
