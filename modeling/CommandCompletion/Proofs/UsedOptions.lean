/-
Which options count as used.

Of the words that count, the context keeps no more than what they look like. An
option counts as used if one of them reads as an option and is one of its names,
and so may a value: a slot that has to be filled takes any word, a dash in front
or not. `counted` follows a walk as `Walk.accepted` does, but keeps for each word
what it was taken as. With that, the options that count as used are those that
were typed and those that a value looks like (`arrived_usesExactly`), and what is
offered follows the former only where no value looks like an option that was not
typed.
-/
import CommandCompletion.Proofs.AcceptedWords
import CommandCompletion.Recommendation

set_option autoImplicit false

namespace CommandCompletion.Walk

variable {σ : Type} {catalog : Catalog σ} {directory : String} {shell : Shell}
variable {memory after : Memory σ} {walk last : Walk} {move : Move}
variable {all turns : List (Walk × Move)} {owner : Option Given} {words : List Taken}

/-! ## Words that count, with what they were taken as -/

/-- The word was taken as the name of an option. -/
def Use.namesOption : Use → Bool
  | .option _ => true
  | .value _ | .argument | .child | .command => false

/-- The word as a walk takes it: a flag that it has already stays. -/
def Taken.flagged (persist : Bool) (taken : Taken) : Taken :=
  if persist then { taken with word := taken.word.withPersistent true } else taken

/-- The words that count after a move, if `words` counted before. It goes by the moves as
`Walk.perform` does for the accepted words, and forgets to it (`countedAfter_word`). -/
def countedAfter (words : List Taken) (owner : Option Given) (walk : Walk) (move : Move) :
    List Taken :=
  let new := takenBy owner walk move
  match move with
  | .takeOption _ persist | .takeValue _ _ _ persist => words ++ new.map (Taken.flagged persist)
  | .enter _ => (words ++ new).filter fun taken => taken.word.isPersistent
  | .delegate _ => []
  | .beginArguments | .endArguments _ | .beginOption _ => words

/-- The words that count after some turns. -/
def countedFrom (words : List Taken) (owner : Option Given) : List (Walk × Move) → List Taken
  | [] => words
  | (walk, move) :: turns =>
    countedFrom (countedAfter words owner walk move) (ownerAfter owner walk move) turns

/-- The words that count after the turns of a walk. -/
def counted (turns : List (Walk × Move)) : List Taken := countedFrom [] none turns

/-- What counts after a move are the accepted words. -/
theorem countedAfter_word (h : words.map (fun taken => taken.word) = walk.accepted)
    (owner : Option Given) (move : Move) :
    (countedAfter words owner walk move).map (fun taken => taken.word) =
      (walk.perform move).accepted := by
  have hflagged : ∀ (persist : Bool) (taken : Taken), (taken.flagged persist).word =
      if persist then taken.word.withPersistent true else taken.word := by
    intro persist taken
    unfold Taken.flagged
    split <;> rfl
  -- Both kinds of taking flag the word in the same way.
  have htaken : ∀ {use : Use} (persist : Bool), use? owner walk move = some use →
      (words ++ (takenBy owner walk move).map (Taken.flagged persist)).map
        (fun taken => taken.word) = (walk.take persist).accepted := by
    intro use persist huse
    unfold take takenBy
    rw [huse]
    cases walk.words with
    | nil =>
      dsimp only
      rw [List.map_nil, List.append_nil, h]
    | cons word rest =>
      dsimp only
      rw [List.map_append, h, List.map_singleton, List.map_singleton, hflagged]
  have hunflagged : (takenBy owner walk move).map (Taken.flagged false) =
      takenBy owner walk move := List.map_id _
  cases move with
  | takeOption option persist => exact htaken persist rfl
  | takeValue slots fromOption fromVariadic persist => exact htaken persist rfl
  | enter child =>
    -- The child's own name is taken unflagged, and then only persistent words stay.
    show ((words ++ takenBy owner walk (.enter child)).filter _).map _ = _
    have hboth := htaken false rfl
    rw [hunflagged] at hboth
    have hfilter := List.filter_map (f := fun taken : Taken => taken.word)
      (p := fun word : Word => word.isPersistent) (l := words ++ takenBy owner walk (.enter child))
    rw [hboth] at hfilter
    exact hfilter.symm
  | delegate root => rfl
  | beginArguments | endArguments | beginOption => exact h

/-! ## How the words that look like options were taken -/

/-- The words that are accepted, with what is known about those that look like options. The list of
all turns is carried along, so that the last field can name the turn at which a word slipped
through. -/
structure Counts (all : List (Walk × Move)) (words : List Taken) (walk : Walk) : Prop where
  accepted : words.map (fun taken => taken.word) = walk.accepted
  /-- The name of an option looks like one. -/
  named : ∀ taken ∈ words, taken.use.namesOption = true → taken.word.isOption = true
  /-- Any other word that does was taken where options are not looked for. -/
  shut : ∀ taken ∈ words, taken.use.namesOption = false → taken.word.isOption = true →
    ∃ turn ∈ all, turn.1.isOpen = false ∧
      turn.1.words.head?.map (fun word => word.text) = some taken.word.text

/-- A word that a turn takes as a name looks like an option; one that it takes otherwise does so
only where options are not looked for. By the rules: what is passed on at an open place is no
option. -/
theorem Goes.takenBy_isOption (h : Goes catalog memory walk move after) (hnames : walk.NamesNext)
    {taken : Taken} (hmem : taken ∈ takenBy owner walk move) :
    walk.words.head? = some taken.word ∧
      (taken.use.namesOption = true → taken.word.isOption = true) ∧
      (taken.use.namesOption = false → taken.word.isOption = true → walk.isOpen = false) := by
  have front : ∀ {word rest use}, walk.words = word :: rest → use? owner walk move = some use →
      taken = ⟨word, use⟩ := by
    intro word rest use hwords huse
    rw [takenBy_of_use hwords huse] at hmem
    exact List.mem_singleton.mp hmem
  have passed : ∀ {word after}, Passes catalog memory walk word after → word.isOption = true →
      walk.isOpen = false := by
    intro word after hpasses hoption
    cases hpasses with
    | shut hshut => exact hshut
    | missed _ hplain =>
      rw [hplain] at hoption
      cases hoption
  cases h with
  | beginOption | beginArguments | endArguments =>
    rw [takenBy_of_none rfl] at hmem
    cases hmem
  | enter hwords _ _ hplain =>
    obtain rfl := front hwords rfl
    refine ⟨by rw [hwords]; rfl, by rintro ⟨⟩, fun _ hoption => ?_⟩
    rw [hplain] at hoption
    cases hoption
  | takeOption hstage hwords =>
    obtain rfl := front hwords rfl
    -- The name of an option was looked at when the option was begun.
    obtain ⟨word, rest, hfirst, -, hoption, -⟩ := hnames _ hstage
    rw [hwords] at hfirst
    cases hfirst
    exact ⟨by rw [hwords]; rfl, fun _ => hoption, by rintro ⟨⟩⟩
  | repeatSlot _ hwords _ hpasses | fillSlot _ hwords _ hpasses =>
    obtain rfl := front hwords rfl
    -- Whether it is an option's or the command's own, a value names no option.
    have hvalue : (owner.elim Use.argument Use.value).namesOption = false := by
      cases owner <;> rfl
    refine ⟨by rw [hwords]; rfl, fun hnamed => ?_, fun _ hoption => passed hpasses hoption⟩
    rw [hvalue] at hnamed
    cases hnamed
  | delegate _ hwords _ hpasses =>
    obtain rfl := front hwords rfl
    exact ⟨by rw [hwords]; rfl, by rintro ⟨⟩, fun _ hoption => passed hpasses hoption⟩

/-- What counts after a move counted before it, or was taken by it. -/
theorem mem_countedAfter {taken : Taken} (h : taken ∈ countedAfter words owner walk move) :
    taken ∈ words ∨ ∃ new ∈ takenBy owner walk move, taken.use = new.use ∧
      taken.word.text = new.word.text ∧ taken.word.isOption = new.word.isOption := by
  have flagged : ∀ persist,
      taken ∈ words ++ (takenBy owner walk move).map (Taken.flagged persist) →
      taken ∈ words ∨ ∃ new ∈ takenBy owner walk move, taken.use = new.use ∧
        taken.word.text = new.word.text ∧ taken.word.isOption = new.word.isOption := by
    intro persist hmem
    rcases List.mem_append.mp hmem with hmem | hmem
    · exact .inl hmem
    · obtain ⟨new, hnew, rfl⟩ := List.mem_map.mp hmem
      refine .inr ⟨new, hnew, ?_⟩
      cases persist <;> exact ⟨rfl, rfl, rfl⟩
  cases move with
  | takeOption option persist => exact flagged persist h
  | takeValue slots fromOption fromVariadic persist => exact flagged persist h
  | enter child =>
    -- What is left on the way into a child was there, or is the child's own name.
    rcases List.mem_append.mp (List.mem_filter.mp h).1 with hmem | hmem
    · exact .inl hmem
    · exact .inr ⟨taken, hmem, rfl, rfl, rfl⟩
  | delegate root => cases h
  | beginArguments | endArguments | beginOption => exact .inl h

/-- **Each move keeps what is known about the words that count.** Nothing new is said of the words
that counted before, and of a new one `takenBy_isOption` says what is asked. -/
theorem Goes.counts (h : Goes catalog memory walk move after) (hnames : walk.NamesNext)
    (hturn : (walk, move) ∈ all) (hbefore : Counts all words walk) :
    Counts all (countedAfter words owner walk move) (walk.perform move) := by
  refine ⟨countedAfter_word hbefore.accepted owner move, ?_, ?_⟩
  · intro taken hmem hnamed
    rcases mem_countedAfter hmem with hmem | ⟨new, hnew, huse, -, hoption⟩
    · exact hbefore.named taken hmem hnamed
    · rw [huse] at hnamed
      rw [hoption]
      exact (h.takenBy_isOption hnames hnew).2.1 hnamed
  · intro taken hmem hother hlooks
    rcases mem_countedAfter hmem with hmem | ⟨new, hnew, huse, htext, hoption⟩
    · exact hbefore.shut taken hmem hother hlooks
    · rw [huse] at hother
      rw [hoption] at hlooks
      obtain ⟨hhead, -, hshut⟩ := h.takenBy_isOption hnames hnew
      refine ⟨_, hturn, hshut hother hlooks, ?_⟩
      rw [hhead, htext]
      rfl

theorem Reaches.counts (h : Reaches catalog memory walk turns last after)
    (hnames : walk.NamesNext) (hturns : ∀ turn ∈ turns, turn ∈ all)
    (hstart : Counts all words walk) : Counts all (countedFrom words owner turns) last := by
  induction h generalizing words owner with
  | here => exact hstart
  | @go memory middle after walk last move turns hgoes _ ih =>
    have hfirst : Counts all (countedAfter words owner walk move) (walk.perform move) :=
      hgoes.counts hnames (hturns _ List.mem_cons_self) hstart
    exact ih hgoes.namesNext (fun turn hmem => hturns turn (List.mem_cons_of_mem _ hmem)) hfirst

/-! ## Options that count as used -/

open Recommendation

/-- A word that counts was typed as this option. -/
def typedAs (turns : List (Walk × Move)) (option : CommandOption) : Bool :=
  (counted turns).any fun taken => taken.use.namesOption && option.answersTo taken.word.text

/-- A word that counts looks like this option, but was taken as something else. -/
def looksTyped (turns : List (Walk × Move)) (option : CommandOption) : Bool :=
  (counted turns).any fun taken =>
    !taken.use.namesOption && (taken.word.isOption && option.answersTo taken.word.text)

/-- What is said of the options that count as used where the turns of a walk led. An option is meant
to count as used if it was typed since the last boundary (specification, § E2.5); `exact_iff` says
when it does. -/
structure UsesExactly (turns : List (Walk × Move)) (context : Context Nat) : Prop where
  accepted : (counted turns).map (fun taken => taken.word) = context.accepted
  /-- Options count as used that were typed, and those that a value looks like. -/
  used : ∀ option, context.isUsed option = (typedAs turns option || looksTyped turns option)
  /-- So an option counts as used exactly if it was typed, unless a value looks like it. -/
  exact_iff : ∀ option, (context.isUsed option = true ↔ typedAs turns option = true) ↔
    (looksTyped turns option = true → typedAs turns option = true)
  /-- A value can only look like an option where a slot has to be filled. -/
  required : ∀ option, looksTyped turns option = true → ∃ turn ∈ turns,
    turn.1.isOpen = false ∧ ∃ word ∈ turn.1.words.head?, option.answersTo word.text = true
  /-- An option that was typed is not offered again. -/
  notOffered : ∀ option typed, typedAs turns option = true → option.isRepeatable = false →
    ofOption? context typed option = none
  /-- An option is offered that neither was typed nor is looked like by a value. -/
  offered : ∀ option typed name, option.hidden = false →
    option.isRepeatable = true ∨ typedAs turns option = false ∧ looksTyped turns option = false →
    matchingName? typed option.names = some name →
    ∃ candidate, ofOption? context typed option = some candidate ∧ candidate.name = name

/-- Options that count as used are those that were typed and those that a value looks like: the
words that answer to an option are split by what they were taken as. -/
theorem Counts.isUsed {context : Context Nat} (h : Counts all (counted turns) walk)
    (hcontext : context.accepted = walk.accepted) (option : CommandOption) :
    context.isUsed option = (typedAs turns option || looksTyped turns option) := by
  unfold Context.isUsed typedAs looksTyped
  rw [hcontext, ← h.accepted, List.any_map, Bool.eq_iff_iff, Bool.or_eq_true,
    List.any_eq_true, List.any_eq_true, List.any_eq_true]
  constructor
  · rintro ⟨taken, hmem, hused⟩
    -- The look of a word does not tell what it was taken as: that is in `counted`.
    have hused' : (taken.word.isOption && option.answersTo taken.word.text) = true := hused
    cases hnamed : taken.use.namesOption with
    | true =>
      refine .inl ⟨taken, hmem, ?_⟩
      rw [hnamed, Bool.true_and]
      exact (Bool.and_eq_true_iff.mp hused').2
    | false =>
      refine .inr ⟨taken, hmem, ?_⟩
      rw [hnamed]
      exact hused'
  · rintro (⟨taken, hmem, htyped⟩ | ⟨taken, hmem, hlooks⟩)
    · obtain ⟨hnamed, hanswers⟩ := Bool.and_eq_true_iff.mp htyped
      exact ⟨taken, hmem, Bool.and_eq_true_iff.mpr ⟨h.named taken hmem hnamed, hanswers⟩⟩
    · exact ⟨taken, hmem, (Bool.and_eq_true_iff.mp hlooks).2⟩

/-- **Options count as used that were typed, and those that a value looks like** (specification, §
E2.5: unused options are offered unless they are repeatable). The labelled words are carried along
the walk (`Reaches.counts`), and the recommender's question is put to them. Where no slot has to be
filled the second kind cannot occur (`required`). -/
theorem arrived_usesExactly {words : List Word} {root : CatalogNode} {context : Context Nat}
    (h : (run catalog directory shell { words := words, node := root }).run memory =
      ((turns, .arrived context), after)) : UsesExactly turns context := by
  obtain ⟨last, hreaches, harrives⟩ := reaches_of_run h
  obtain ⟨-, expected, -, hcontext⟩ := harrives
  -- Nothing counts before the first turn.
  have hlast : Counts turns (counted turns) last :=
    hreaches.counts (namesNext_of_command rfl) (fun _ hmem => hmem) ⟨rfl, by simp, by simp⟩
  have haccepted : context.accepted = last.accepted := by rw [hcontext]; rfl
  have hused := hlast.isUsed haccepted
  refine ⟨by rw [haccepted]; exact hlast.accepted, hused, ?_, ?_, ?_, ?_⟩
  · intro option
    rw [hused, Bool.or_eq_true]
    exact or_iff_left_iff_imp
  · intro option hlooks
    obtain ⟨taken, hmem, hlooks⟩ := List.any_eq_true.mp hlooks
    simp only [Bool.and_eq_true, Bool.not_eq_true'] at hlooks
    obtain ⟨hother, hoption, hanswers⟩ := hlooks
    obtain ⟨turn, hturn, hshut, htext⟩ := hlast.shut taken hmem hother hoption
    obtain ⟨word, hword, hsame⟩ := Option.map_eq_some_iff.mp htext
    refine ⟨turn, hturn, hshut, word, hword, ?_⟩
    rw [hsame]
    exact hanswers
  · intro option typed htyped honce
    unfold ofOption?
    rw [hused, htyped, honce, Bool.true_or]
    simp
  · intro option typed name hvisible hfree hname
    have hshown : (option.hidden || (context.isUsed option && !option.isRepeatable)) = false := by
      rw [hvisible, hused]
      rcases hfree with hrepeatable | ⟨htyped, hlooks⟩
      · rw [hrepeatable]
        simp
      · rw [htyped, hlooks]
        rfl
    unfold ofOption?
    rw [hshown, hname]
    exact ⟨_, rfl, rfl⟩

/-! A message and a flag: `--amend` is an option, and after `-m` it is a message. -/

/-- Takes no value. -/
def amend : CommandOption where
  names := ["--amend"]

/-- Has an option that takes a message, and one that takes nothing. -/
def commitRoot : CatalogNode where
  id := 0
  names := ["commit"]
  options := [{ names := ["-m"], args := [{ name := "message" }] }, amend]

/-- Complete words, and an empty one in progress. -/
def typedWords (texts : List String) : List Word :=
  texts.map (Word.ofText · true) ++ [Word.emptyAt 20]

/-- Where the words lead to, with the turns that do. -/
def arrival? (texts : List String) : Option (List (Walk × Move) × Context Nat) :=
  match ((run emptyCatalog "/" .bash { words := typedWords texts, node := commitRoot }).run
    { world := () }).1 with
  | (turns, .arrived context) => some (turns, context)
  | _ => none

theorem run_of_arrival? {texts : List String} {context : Context Nat}
    (h : arrival? texts = some (turns, context)) :
    ∃ after, (run emptyCatalog "/" .bash { words := typedWords texts, node := commitRoot }).run
      { world := () } = ((turns, .arrived context), after) := by
  unfold arrival? at h
  split at h
  · rename_i heq
    cases h
    exact ⟨_, Prod.ext heq rfl⟩
  · cases h

/-- After a message, `--amend` is typed as an option. -/
theorem arrived_usesExactly_typed : ∃ turns context after,
    (run emptyCatalog "/" .bash
      { words := typedWords ["-m", "text", "--amend"], node := commitRoot }).run { world := () } =
        ((turns, .arrived context), after) ∧
    typedAs turns amend = true ∧ UsesExactly turns context := by
  have h : (arrival? ["-m", "text", "--amend"]).map (fun found => typedAs found.1 amend) =
      some true := by
    decide +kernel
  obtain ⟨⟨turns, context⟩, hfound, htyped⟩ := Option.map_eq_some_iff.mp h
  obtain ⟨after, hrun⟩ := run_of_arrival? hfound
  exact ⟨turns, context, after, hrun, htyped, arrived_usesExactly hrun⟩

/-- As a message, `--amend` counts as used although no option was typed but `-m`, and
it is not offered. -/
theorem message_countsAsUsed : ∃ turns context after,
    (run emptyCatalog "/" .bash
      { words := typedWords ["-m", "--amend"], node := commitRoot }).run { world := () } =
        ((turns, .arrived context), after) ∧
    amend ∈ context.availableOptions ∧ amend.hidden = false ∧ amend.isRepeatable = false ∧
    typedAs turns amend = false ∧ context.isUsed amend = true ∧
    Recommendation.ofOption? context "" amend = none := by
  have h : (arrival? ["-m", "--amend"]).map (fun found =>
      (found.2.availableOptions.contains amend, typedAs found.1 amend, found.2.isUsed amend,
        Recommendation.ofOption? found.2 "" amend)) = some (true, false, true, none) := by
    decide +kernel
  obtain ⟨⟨turns, context⟩, hfound, hanswers⟩ := Option.map_eq_some_iff.mp h
  obtain ⟨after, hrun⟩ := run_of_arrival? hfound
  simp only [Prod.mk.injEq, List.contains_iff_mem] at hanswers
  obtain ⟨havailable, htyped, hused, hoffered⟩ := hanswers
  exact ⟨turns, context, after, hrun, havailable, rfl, rfl, htyped, hused, hoffered⟩

end CommandCompletion.Walk
