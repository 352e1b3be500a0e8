/-
Walking the complete words of a command line down a grammar.

The walk takes words from the left and stops at the first place where nothing is
left to decide: at the word being typed, or at the end. It never goes back; a
word that fits nowhere ends it without a result. At each turn the walk stands in
one of three stages: a command, where an option, a child or the first argument
may come; a list of arguments; or an option whose word is next.

A turn is decided by `decide`, which may have to look up a child or a command in
the catalog, and carried out by `perform`, which does not. Every turn makes
`Walk.measure` smaller: it takes a word, or it moves to a stage that is nearer
to taking one. So a walk ends for every grammar, also for one that refers to
itself, and `run` can report every turn it made.
-/
import CommandCompletion.Catalog
import CommandCompletion.Context

set_option autoImplicit false

namespace CommandCompletion

/-! ## Where a walk stands -/

/-- What the next word is looked at as. The three stages are the matcher's three functions for a
command, for arguments and for an option (specification, § 4.3), and carry the arguments these hand
to each other. -/
inductive Stage where
  /-- An option, a child, or the first argument of the node. -/
  | command (argsExhausted argsUsed : Bool)
  /-- A value for the first of `slots`. `fromOption` says whose slots these are,
  `fromVariadic` that the first one has taken a word already, and `persist` that
  the words belong to an option that descendants inherit. -/
  | arguments (slots : List Slot) (fromOption fromVariadic persist : Bool)
  /-- The name of this option. -/
  | option (option : CommandOption)
deriving DecidableEq, Repr, Inhabited

/-- A walk between two turns: the words ahead, and what the way here has left behind. Nothing of it
depends on how the walk got there. -/
structure Walk where
  /-- The words that are not taken yet. -/
  words : List Word
  /-- The node it stands on. -/
  node : CatalogNode
  /-- What the node inherits. -/
  inherited : List CommandOption := []
  /-- The words that were taken and still count. -/
  accepted : List Word := []
  stage : Stage := .command false false
deriving Inhabited

/-! ## Turns -/

/-- What a walk does in a turn. Moves carry what was looked up, so that carrying one out needs no
catalog, and the list of moves tells all that a walk did. -/
inductive Move where
  /-- Goes on to the arguments of the node. -/
  | beginArguments
  /-- Leaves a list of arguments that is used up. -/
  | endArguments (fromOption : Bool)
  /-- Goes on to an option that the next word names. -/
  | beginOption (option : CommandOption)
  /-- Takes the next word as the name of an option. -/
  | takeOption (option : CommandOption) (persist : Bool)
  /-- Takes the next word as a value, after which `slots` are left. -/
  | takeValue (slots : List Slot) (fromOption fromVariadic persist : Bool)
  /-- Takes the next word as the name of a child, and enters the child. -/
  | enter (child : CatalogNode)
  /-- Takes the next word as the name of a command, and starts anew there. -/
  | delegate (root : CatalogNode)
deriving Inhabited

namespace Walk

/-- The walk with its next word among the accepted ones, flagged if it belongs to an option that
descendants inherit. -/
def take (walk : Walk) (persist : Bool) : Walk :=
  match walk.words with
  | [] => walk
  | word :: words =>
    let word := if persist then word.withPersistent true else word
    { walk with words := words, accepted := walk.accepted ++ [word] }

/-- The walk after a move. On the way into a child, only what belongs to persistent options is kept
(specification, § 4.2); a delegation keeps nothing. -/
def perform (walk : Walk) : Move → Walk
  | .beginArguments => { walk with stage := .arguments walk.node.args false false false }
  | .endArguments fromOption => { walk with stage := .command true (!fromOption) }
  | .beginOption option => { walk with stage := .option option }
  | .takeOption option persist =>
    { walk.take persist with
      stage :=
        if option.args.isEmpty then .command false false
        else .arguments option.args true false persist }
  | .takeValue slots fromOption fromVariadic persist =>
    { walk.take persist with stage := .arguments slots fromOption fromVariadic persist }
  | .enter child =>
    { words := walk.words.tail
      node := child
      inherited := CommandOption.passedOn walk.inherited walk.node.options
      accepted := (walk.take false).accepted.filter fun word => word.isPersistent
      stage := .command false false }
  | .delegate root => { words := walk.words.tail, node := root }

/-! ## The measure -/

/-- How many stages are left before a word is taken or the walk stops. Arguments that are used up
come highest, since they lead back to the command they belong to. -/
def rank : Stage → Nat
  | .arguments [] _ _ _ => 3
  | .command _ _ => 2
  | .arguments (_ :: _) _ _ _ => 1
  | .option _ => 0

/-- The stages of a list of arguments that is not used up rank below those of a command, so a
command can go on to its arguments. -/
theorem rank_arguments_of_ne_nil {slots : List Slot} (h : slots ≠ [])
    (fromOption fromVariadic persist : Bool) :
    rank (.arguments slots fromOption fromVariadic persist) = 1 := by
  cases slots with
  | nil => exact absurd rfl h
  | cons => rfl

/-- No stage ranks above an empty list of arguments. -/
theorem rank_le (stage : Stage) : rank stage ≤ 3 := by
  cases stage with
  | command => simp [rank]
  | arguments slots => cases slots <;> simp [rank]
  | option => simp [rank]

/-- Gets smaller with every turn: a word outweighs all stages, and within a word the rank falls. -/
def measure (walk : Walk) : Nat := 4 * walk.words.length + rank walk.stage

/-- Whether the word is flagged does not matter for what is left. -/
@[simp] theorem words_take (walk : Walk) (persist : Bool) :
    (walk.take persist).words = walk.words.tail := by
  unfold take
  split <;> simp_all

/-- Taking a word makes the measure smaller, whatever stage follows. All moves that take a word come
down to this. -/
theorem measure_lt_of_tail {walk next : Walk} (hne : walk.words ≠ [])
    (h : next.words = walk.words.tail) : next.measure < walk.measure := by
  have hlen : walk.words.tail.length + 1 = walk.words.length := by
    cases hw : walk.words with
    | nil => exact absurd hw hne
    | cons => simp
  have hrank := rank_le next.stage
  simp only [measure, h]
  omega

/-- At a command, an option can be gone on to. -/
theorem rank_pos_of_eq_two {stage : Stage} (h : rank stage = 2) : 0 < rank stage := by omega

/-- Arguments that begin rank below the command they belong to. Without any the measure would grow,
and the word is refused instead. -/
theorem measure_beginArguments_lt {walk : Walk} (hstage : rank walk.stage = 2)
    (hargs : walk.node.args ≠ []) : (walk.perform .beginArguments).measure < walk.measure := by
  simp only [perform, measure, hstage, rank_arguments_of_ne_nil hargs]
  omega

/-! ## Deciding -/

/-- What a walk finds to do in a turn. A move comes with the proof that it makes the walk smaller,
so `run` needs to look at no cases to see that it ends. -/
inductive Turn (walk : Walk) where
  /-- It moves on. -/
  | go (move : Move) (smaller : (walk.perform move).measure < walk.measure)
  /-- It has arrived. -/
  | arrive (context : Context Nat)
  /-- The words do not fit the grammar. -/
  | refuse
  /-- The walk stands where no walk can stand. -/
  | lost (reason : String)

/-- Whether every slot may be skipped, so that an option or a child may come as well. A variadic
slot in front that has taken a word already is satisfied. -/
def allOptional (slots : List Slot) (fromVariadic : Bool) : Bool :=
  match slots with
  | [] => true
  | slot :: rest =>
    (slot.isOptional || (slot.isVariadic && fromVariadic)) && rest.all fun s => s.isOptional

/-- The place that was reached, with the word being typed. Everything else is taken over from the
walk as it stands. -/
def context (walk : Walk) (directory : String) (shell : Shell) (expected : Expected) :
    Context Nat where
  expected := expected
  node := walk.node
  inherited := walk.inherited
  current := walk.words.head?
  accepted := walk.accepted
  directory := directory
  shell := shell

/-- Whether words of this option count for descendants too: it is persistent,
or it shares an alias with one that the node inherits. -/
def persists (walk : Walk) (option : CommandOption) : Bool :=
  option.isPersistent || walk.inherited.any fun taken => taken.sharesName option

/-- Looks up the option that a word names, the inherited ones first. An unknown one halts the walk
(specification, § 4.3, step 3a). -/
def decideOption (walk : Walk) (word : Word)
    (hrank : 0 < rank walk.stage) : Turn walk :=
  match CommandOption.find? word.text walk.inherited walk.node.options with
  | some option => .go (.beginOption option) (by
      have zero : rank (walk.perform (.beginOption option)).stage = 0 := rfl
      have same : (walk.perform (.beginOption option)).words = walk.words := rfl
      simp only [measure, zero, same]; omega)
  | none => .refuse

/-- The turn of a walk that stands at a command: an option, then a child, then the first argument,
and else nothing (specification, § 4.3, `matchSubcommand`). -/
def decideCommand {σ : Type} (catalog : Catalog σ) (walk : Walk) (word : Word)
    (hwords : walk.words ≠ []) (hstage : rank walk.stage = 2) : Recall σ (Turn walk) := do
  if word.isOption then
    return walk.decideOption word (rank_pos_of_eq_two hstage)
  else
    match ← catalog.resolveChild walk.node word.text with
    | some child => return .go (.enter child) (measure_lt_of_tail hwords rfl)
    | none =>
      if hargs : walk.node.args = [] then return .refuse
      else return .go .beginArguments (measure_beginArguments_lt hstage hargs)

/-- The turn of a walk that takes `word` as a value for `slot` (specification, § 4.3, step 5 of
`matchArgument`): a variadic slot stays, a slot for a command hands over, any other slot is filled.
-/
def decideValue {σ : Type} (catalog : Catalog σ) (walk : Walk) (word : Word)
    (slot : Slot) (rest : List Slot) (fromOption persist : Bool)
    (hwords : walk.words ≠ []) : Recall σ (Turn walk) := do
  let smaller {slots : List Slot} {fromVariadic : Bool} :
      (walk.perform (.takeValue slots fromOption fromVariadic persist)).measure < walk.measure :=
    measure_lt_of_tail hwords (words_take walk persist)
  -- A variadic slot never ends by itself; only a child or an option ends it.
  if slot.isVariadic then
    return .go (.takeValue (slot :: rest) fromOption true persist) smaller
  else if slot.isCommand then
    -- The command that takes over needs a word of its own to work on.
    if walk.words.tail = [] then return .refuse
    else
      match ← catalog.loadRoot word.text with
      | some root => return .go (.delegate root) (measure_lt_of_tail hwords rfl)
      | none => return .refuse
  else return .go (.takeValue rest fromOption false persist) smaller

/-- The turn of a walk that stands at a list of arguments that begins with `slot`. Where all may be
skipped, options and children are looked for first: an unknown option ends the walk, while a word
that names no child is a value. -/
def decideArgument {σ : Type} (catalog : Catalog σ) (walk : Walk) (word : Word)
    (slot : Slot) (rest : List Slot) (fromOption fromVariadic persist : Bool)
    (hwords : walk.words ≠ []) (hstage : 0 < rank walk.stage) : Recall σ (Turn walk) := do
  if allOptional (slot :: rest) fromVariadic then
    if word.isOption then
      return walk.decideOption word hstage
    else
      match ← catalog.resolveChild walk.node word.text with
      | some child => return .go (.enter child) (measure_lt_of_tail hwords rfl)
      | none => walk.decideValue catalog word slot rest fromOption persist hwords
  else walk.decideValue catalog word slot rest fromOption persist hwords

/-- The turn of a walk, by the stage it stands in. An incomplete word is never looked at: the walk
has arrived there. -/
def decide {σ : Type} (catalog : Catalog σ) (directory : String) (shell : Shell)
    (walk : Walk) : Recall σ (Turn walk) :=
  match hstage : walk.stage with
  | .command argsExhausted argsUsed =>
    let here := walk.context directory shell (.anything argsExhausted argsUsed)
    -- The word being typed ends the walk like the end of the line does.
    match hwords : walk.words with
    | [] => return .arrive here
    | word :: _ =>
      if word.complete then
        walk.decideCommand catalog word (by simp [hwords]) (by simp [hstage, rank])
      else return .arrive here
  -- No word is looked at here, so this turn is taken even at the end of the line.
  | .arguments [] fromOption _ _ =>
    return .go (.endArguments fromOption) (by simp only [perform, measure, hstage, rank]; omega)
  | .arguments (slot :: rest) fromOption fromVariadic persist =>
    let here := walk.context directory shell
      (.value slot (allOptional (slot :: rest) fromVariadic))
    match hwords : walk.words with
    | [] => return .arrive here
    | word :: _ =>
      if word.complete then
        walk.decideArgument catalog word slot rest fromOption fromVariadic persist
          (by simp [hwords]) (by simp [hstage, rank])
      else return .arrive here
  -- The word that named the option is still in front, so this is never the end of the line.
  | .option option =>
    match hwords : walk.words with
    | [] => return .lost s!"option {option.names} expected but no words are left"
    | _ :: _ =>
      return .go (.takeOption option (walk.persists option))
        (measure_lt_of_tail (by simp [hwords]) (words_take walk _))

/-! ## Running -/

/-- How a walk ends: at a place, at a word that fits nowhere, or where it cannot stand. -/
inductive Ending where
  | arrived (context : Context Nat)
  | refused
  | lost (reason : String)

/-- The turns of a walk, each as the walk before it and its move, and how the walk ends. Only the
ending is asked for by `locate`; the turns are what a walk did, for whoever has to account for it.
-/
def run {σ : Type} (catalog : Catalog σ) (directory : String) (shell : Shell) (walk : Walk) :
    Recall σ (List (Walk × Move) × Ending) := do
  match ← walk.decide catalog directory shell with
  | .go move _ =>
    let (turns, ending) ← run catalog directory shell (walk.perform move)
    return ((walk, move) :: turns, ending)
  | .arrive context => return ([], .arrived context)
  | .refuse => return ([], .refused)
  | .lost reason => return ([], .lost reason)
termination_by walk.measure

end Walk

/-- The place that `words` lead to from the node `root`, `none` if they do not fit the grammar. No
match is no failure (specification, § 7); a walk that is lost is. -/
def Catalog.locate {σ : Type} (catalog : Catalog σ) (directory : String) (shell : Shell)
    (words : List Word) (root : CatalogNode) : Recall σ (Except Failure (Option (Context Nat))) := do
  match (← Walk.run catalog directory shell { words := words, node := root }).2 with
  | .arrived context => return .ok (some context)
  | .refused => return .ok none
  | .lost reason => return .error (.invalidState reason)

end CommandCompletion
