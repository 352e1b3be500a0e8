/-
What is offered can be gone on with.

The recommender and the walk read the same grammar in different orders: the one
lists the options of the node before inherited ones and shows each under its
first alias that fits, the other looks inherited ones up first and takes the
first child that answers. They need not agree on which option or child a name
means. They do agree on where options and children may stand at all
(`isOpen_of_offersNamed`), and every name that is offered there names something.

So the words that led to a place, followed by the name of a candidate and a new
word in progress, lead to a place again (`locate_offered`): the walk repeats its
way, takes the name, and has arrived.
-/
import CommandCompletion.Proofs.OptionScope
import CommandCompletion.Recommendation

set_option autoImplicit false

namespace CommandCompletion

/-! ## Where a candidate comes from -/

namespace Suggestion

variable {candidate : Suggestion} {candidates : List Suggestion}

/-- Leaving out repeated values keeps the order. The induction is on the candidates, with the values
seen so far general. -/
theorem keepFirst_sublist (seen : List String) (candidates : List Suggestion) :
    (keepFirst seen candidates).Sublist candidates := by
  induction candidates generalizing seen with
  | nil => exact List.Sublist.refl _
  | cons first rest ih =>
    unfold keepFirst
    split
    · exact (ih seen).cons first
    · exact (ih _).cons_cons first

/-- Ranking makes nothing up. -/
theorem mem_of_mem_rank {typed : String} (h : candidate ∈ rank typed candidates) :
    candidate ∈ candidates := by
  have hsorted := (keepFirst_sublist _ _).subset h
  exact List.mem_mergeSort.mp hsorted

end Suggestion

namespace Recommendation

variable {ι : Type} {context : Context ι} {candidate : Suggestion} {typed name : String}
variable {commands : List String} {entries : List (String × Bool)} {all : List Suggestion}

/-- Children and options are offered here: at a node whose arguments are not used, and at a slot if
every slot that is left is optional. This is the recommender's own condition; that the walk has the
same one is `isOpen_of_offersNamed`. -/
def offersNamed : Expected → Bool
  | .anything _ argsUsed => !argsUsed
  | .value _ remainingOptional => remainingOptional

/-- The candidate is offered as a child of the node that was reached. -/
def FromChild (context : Context ι) (candidate : Suggestion) : Prop :=
  offersNamed context.expected = true ∧
    ∃ child ∈ context.node.children, ofChild? context.typed child = some candidate

/-- The candidate is offered as an option. -/
def FromOption (context : Context ι) (candidate : Suggestion) : Prop :=
  offersNamed context.expected = true ∧
    ∃ option ∈ context.availableOptions, ofOption? context context.typed option = some candidate

/-- A child is offered under a name of its own. -/
theorem ofChild?_eq_some {child : Node ι} (h : ofChild? typed child = some candidate) :
    candidate.kind = .subcommand ∧ candidate.name ∈ child.names := by
  unfold ofChild? at h
  split at h
  · cases h
  · obtain ⟨name, hname, rfl⟩ := Option.map_eq_some_iff.mp h
    exact ⟨rfl, List.mem_of_find?_eq_some hname⟩

/-- An option is offered under a name of its own. -/
theorem ofOption?_eq_some {option : CommandOption}
    (h : ofOption? context typed option = some candidate) :
    candidate.kind = .option ∧ candidate.name ∈ option.names := by
  unfold ofOption? at h
  split at h
  · cases h
  · obtain ⟨name, hname, rfl⟩ := Option.map_eq_some_iff.mp h
    exact ⟨rfl, List.mem_of_find?_eq_some hname⟩

/-- The values of a slot are no options. -/
theorem kind_ne_option_of_mem_slotValues {slot : Slot}
    (h : candidate ∈ slotValues commands entries context typed slot) :
    candidate.kind ≠ .option := by
  unfold slotValues at h
  dsimp only at h
  simp only [List.mem_append, or_assoc] at h
  -- A slot offers its choices, command names and paths, and each of these sets the kind itself.
  rcases h with hchoice | hcommand | hpath
  · obtain ⟨choice, -, hchoice⟩ := List.mem_filterMap.mp hchoice
    unfold ofChoice? at hchoice
    split at hchoice <;> cases hchoice
    simp
  · split at hcommand
    · obtain ⟨command, -, hcommand⟩ := List.mem_filterMap.mp hcommand
      unfold ofCommand? at hcommand
      split at hcommand <;> cases hcommand
      simp
    · cases hcommand
  · split at hpath
    · cases hpath
    · obtain ⟨entry, -, hpath⟩ := List.mem_filterMap.mp hpath
      unfold ofListed? at hpath
      dsimp only at hpath
      split at hpath
      · cases hpath
      · split at hpath
        · cases hpath
        · split at hpath <;> cases hpath
          simp

theorem mem_childrenAndOptions (h : candidate ∈ childrenAndOptions context typed) :
    (∃ child ∈ context.node.children, ofChild? typed child = some candidate) ∨
      ∃ option ∈ context.availableOptions, ofOption? context typed option = some candidate := by
  unfold childrenAndOptions at h
  rw [List.mem_append, List.mem_filterMap, List.mem_filterMap] at h
  exact h

/-- A candidate that looks like an option comes from one that is available. The two kinds of places
are gone through list by list: only children and options can be of this kind, and a child says that
it is a subcommand. -/
theorem fromOption_of_mem (hall : candidates? commands context entries = some all)
    (hmem : candidate ∈ all) (hkind : candidate.kind = .option) : FromOption context candidate := by
  have named : candidate ∈ childrenAndOptions context context.typed →
      ∃ option ∈ context.availableOptions,
        ofOption? context context.typed option = some candidate := by
    intro h
    rcases mem_childrenAndOptions h with ⟨child, -, hchild⟩ | hoption
    · rw [(ofChild?_eq_some hchild).1] at hkind
      cases hkind
    · exact hoption
  have value : ∀ slot,
      ¬ candidate ∈ slotValues commands entries context context.typed slot :=
    fun slot h => kind_ne_option_of_mem_slotValues h hkind
  unfold FromOption
  unfold candidates? at hall
  dsimp only at hall
  cases hexpected : context.expected with
  | anything argsExhausted argsUsed =>
    rw [hexpected] at hall
    dsimp only at hall
    split at hall
    · cases hall
    · cases hall
      rw [List.mem_append] at hmem
      rcases hmem with hmem | hmem
      · cases argsUsed with
        | true => simp at hmem
        | false => exact ⟨rfl, named (by simpa using hmem)⟩
      · split at hmem
        · cases hmem
        · split at hmem
          · cases hmem
          · exact absurd hmem (value _)
  | value slot remainingOptional =>
    rw [hexpected] at hall
    cases hall
    rw [List.mem_append] at hmem
    rcases hmem with hmem | hmem
    · exact absurd hmem (value slot)
    · cases remainingOptional with
      | true => exact ⟨rfl, named (by simpa using hmem)⟩
      | false => simp at hmem

end Recommendation

/-! ## Going on from a place -/

namespace Walk

open Recommendation

variable {σ : Type} {catalog : Catalog σ} {directory : String} {shell : Shell}
variable {memory after : Memory σ} {walk : Walk} {word following : Word} {name : String}

/-- The recommender offers children and options only where the walk looks for them. Everything else
in this module is repetition of a walk; this is the point where two programs have to agree. -/
theorem isOpen_of_offersNamed {expected : Expected} (hexpected : walk.expected? = some expected)
    (h : offersNamed expected = true) : walk.isOpen = true := by
  unfold expected? at hexpected
  unfold isOpen
  split at hexpected
  · rfl
  · cases hexpected
  · cases hexpected
    exact h
  · cases hexpected

/-- Every name of an option that is available names one that is looked for, though not always the
same one: available options put the node's own first, the lookup the inherited ones. -/
theorem exists_find?_of_available {inherited own : List CommandOption} {option : CommandOption}
    (h : option ∈ CommandOption.available own inherited) (hname : name ∈ option.names) :
    ∃ found, CommandOption.find? name inherited own = some found := by
  have hmem : option ∈ inherited ++ own :=
    List.mem_append.mpr (CommandOption.mem_of_mem_merge h).symm
  have hanswers : option.answersTo name = true := List.contains_iff_mem.mpr hname
  exact Option.isSome_iff_exists.mp (List.find?_isSome.mpr ⟨option, hmem, hanswers⟩)

/-- A walk that waits for something, with a word in progress in front, has arrived. -/
theorem exists_arrives (hwords : walk.words = [following]) (hfollowing : following.complete = false)
    (hexpected : walk.expected?.isSome = true) :
    ∃ context, walk.Arrives directory shell context := by
  obtain ⟨expected, hexpected⟩ := Option.isSome_iff_exists.mp hexpected
  refine ⟨_, ?_, expected, hexpected, rfl⟩
  intro other hother
  rw [hwords] at hother
  cases hother
  exact hfollowing

/-- From an open place a word that names an option leads on, in two turns: to the arguments of the
option, or back to the command. Both are places where a word in progress may stand, so the walk has
arrived whichever it is. -/
theorem reaches_of_option {option : CommandOption} (hwords : walk.words = [word, following])
    (hopen : walk.isOpen = true) (hcomplete : word.complete = true) (hoption : word.isOption = true)
    (hfollowing : following.complete = false)
    (hfound : CommandOption.find? word.text walk.inherited walk.node.options = some option) :
    ∃ turns next context, Reaches catalog memory walk turns next memory ∧
      next.Arrives directory shell context := by
  let naming := walk.perform (.beginOption option)
  let next := naming.perform (.takeOption option (naming.persists option))
  have hbegin : Goes catalog memory walk (.beginOption option) memory :=
    .beginOption hwords hcomplete hopen hoption hfound
  have htake : Goes catalog memory naming (.takeOption option (naming.persists option)) memory :=
    .takeOption rfl hwords
  have hrest : next.words = [following] := by
    show (naming.take _).words = _
    rw [words_take]
    exact congrArg List.tail hwords
  have hexpected : next.expected?.isSome = true := by
    have hstage : next.stage = if option.args.isEmpty then .command false false
        else .arguments option.args true false (naming.persists option) := rfl
    unfold expected?
    rw [hstage]
    cases option.args <;> rfl
  obtain ⟨context, harrives⟩ := exists_arrives hrest hfollowing hexpected
  exact ⟨_, next, context, .go hbegin (.go htake (.here memory next)), harrives⟩

/-- From an open place a word that names a child leads to the child. -/
theorem reaches_of_child {child : CatalogNode} (hwords : walk.words = [word, following])
    (hopen : walk.isOpen = true) (hcomplete : word.complete = true) (hplain : word.isOption = false)
    (hfollowing : following.complete = false)
    (hchild : (catalog.resolveChild walk.node word.text).run memory = (some child, after)) :
    ∃ turns next context, Reaches catalog memory walk turns next after ∧
      next.Arrives directory shell context := by
  have henter : Goes catalog memory walk (.enter child) after :=
    .enter hwords hcomplete hopen hplain hchild
  have hrest : (walk.perform (.enter child)).words = [following] := congrArg List.tail hwords
  obtain ⟨context, harrives⟩ := exists_arrives hrest hfollowing rfl
  exact ⟨_, _, context, .go henter (.here after _), harrives⟩

end Walk

namespace Catalog

open Recommendation

variable {σ : Type} {catalog : Catalog σ} {directory : String} {shell : Shell}
variable {memory settled final : Memory σ} {root : CatalogNode} {words : List Word}

/-- `words` lead to a place, whether that is asked in `memory` or in whatever came of `settled`
later. The second is what a user meets who goes on typing, after requests that may have loaded more.
-/
def LeadsOn (catalog : Catalog σ) (directory : String) (shell : Shell) (root : CatalogNode)
    (words : List Word) (memory settled : Memory σ) : Prop :=
  ∀ start, (start = memory ∨ settled.Extends start) → ∃ next after,
    (catalog.locate directory shell words root).run start = (.ok (some next), after)

/-- A walk that arrives shows that its words lead on, since it can be repeated: `Reaches.replay`
takes it through any later memory. -/
theorem leadsOn_of_reaches {last : Walk} {turns : List (Walk × Move)} {context : Context Nat}
    (hreaches : Walk.Reaches catalog memory { words := words, node := root } turns last settled)
    (harrives : last.Arrives directory shell context) :
    LeadsOn catalog directory shell root words memory settled := by
  intro start hstart
  rcases hstart with rfl | hlater
  · exact ⟨context, settled, locate_eq_some_iff.mpr ⟨turns, Walk.run_of_reaches hreaches harrives⟩⟩
  · have hagain := hreaches.replay hlater
    exact ⟨context, start, locate_eq_some_iff.mpr ⟨turns, Walk.run_of_reaches hagain harrives⟩⟩

/-- **No candidate is a dead end.** Where `earlier` and a word in progress led to a place, take a
candidate for it that is an option, or a child that can be resolved. Then `earlier`, the name of the
candidate and an empty word lead to a place as well: the recommender (specification, § E2.5) and the
matcher (§ 4.3) agree on what may come. The walk is repeated over `earlier` with another end
(`Reaches.swapTail`); it then stands where the candidate was offered, an open place, and one or two
moves more take the name. -/
theorem locate_offered {earlier : List Word} {current : Word} {context : Context Nat}
    {commands : List String} {entries : List (String × Bool)} {candidates : List Suggestion}
    {candidate : Suggestion} (offset : Nat)
    (hearlier : ∀ word ∈ earlier, word.complete = true) (hcurrent : current.complete = false)
    (hlocated : (catalog.locate directory shell (earlier ++ [current]) root).run memory =
      (.ok (some context), final))
    (hoffered : byGrammar commands context entries = some candidates)
    (hmem : candidate ∈ candidates) :
    (candidate.kind = .option → Word.looksLikeOption candidate.name = true →
      LeadsOn catalog directory shell root
        (earlier ++ [Word.ofText candidate.name true, Word.emptyAt offset]) memory final) ∧
    (∀ child resolved, FromChild context candidate →
      Word.looksLikeOption candidate.name = false →
      (catalog.resolveChild context.node candidate.name).run final = (some child, resolved) →
      LeadsOn catalog directory shell root
        (earlier ++ [Word.ofText candidate.name true, Word.emptyAt offset]) memory resolved) := by
  obtain ⟨turns, hrun⟩ := locate_eq_some_iff.mp hlocated
  obtain ⟨last, hreaches, harrives⟩ := Walk.reaches_of_run hrun
  have hnames : Walk.NamesNext { words := earlier ++ [current], node := root } :=
    Walk.namesNext_of_command rfl
  have hlast : last.words = [current] :=
    hreaches.words_of_arrives hnames rfl hearlier hcurrent harrives
  have hwaits : ∀ word ∈ [current].head?, word.complete = false := by
    intro word hword
    cases hword
    exact hcurrent
  -- The same way, with the name of the candidate after it.
  let named := Word.ofText candidate.name true
  let following := Word.emptyAt offset
  let there := last.withWords [named, following]
  obtain ⟨turns', hagain⟩ : ∃ turns', Walk.Reaches catalog memory
      { words := earlier ++ [named, following], node := root } turns' there final :=
    hreaches.swapTail hnames rfl hlast hwaits (List.cons_ne_nil _ _)
  obtain ⟨-, expected, hexpected, hcontext⟩ := harrives
  have hthere : there.expected? = some expected := hexpected
  -- What was offered depends on the context only, and the repeated walk waits for the same.
  have hopens : offersNamed context.expected = true → there.isOpen = true := by
    intro h
    rw [hcontext] at h
    exact Walk.isOpen_of_offersNamed hthere h
  constructor
  · intro hkind hlooks
    obtain ⟨all, hall, rfl⟩ := Option.map_eq_some_iff.mp hoffered
    obtain ⟨hnamed, option, havailable, hoption⟩ :=
      fromOption_of_mem hall (Suggestion.mem_of_mem_rank hmem) hkind
    have hname : candidate.name ∈ option.names := (ofOption?_eq_some hoption).2
    rw [hcontext] at havailable
    obtain ⟨found, hfound⟩ : ∃ found, CommandOption.find? named.text there.inherited
        there.node.options = some found := Walk.exists_find?_of_available havailable hname
    obtain ⟨more, next, reached, hmore, hnext⟩ :=
      Walk.reaches_of_option rfl (hopens hnamed) rfl hlooks rfl hfound
    exact leadsOn_of_reaches (hagain.trans hmore) hnext
  · intro child resolved hchild hlooks hresolved
    rw [hcontext] at hresolved
    have hfound : (catalog.resolveChild there.node named.text).run final =
        (some child, resolved) := hresolved
    obtain ⟨more, next, reached, hmore, hnext⟩ :=
      Walk.reaches_of_child rfl (hopens hchild.1) rfl hlooks rfl hfound
    exact leadsOn_of_reaches (hagain.trans hmore) hnext

/-! At `git -C dir`, after the arguments of an option, both kinds of candidate
lead on; the child is deferred. -/

open Walk (emptyCatalog layeredRoot)

/-- The words `-C dir`. -/
def directoryWords : List Word := ["-C", "dir"].map (Word.ofText · true)

/-- The place they lead to. -/
def directoryContext : Context Nat where
  expected := .anything true false
  node := layeredRoot
  current := some (Word.emptyAt 8)
  accepted := directoryWords.map (Word.withPersistent · true)
  directory := "/"
  shell := .bash

theorem locate_offered_layered :
    (∀ word ∈ directoryWords, word.complete = true) ∧
    (emptyCatalog.locate "/" .bash (directoryWords ++ [Word.emptyAt 8]) layeredRoot).run
      { world := () } = (.ok (some directoryContext), { world := () }) ∧
    LeadsOn emptyCatalog "/" .bash layeredRoot
      (directoryWords ++ [Word.ofText "--no-pager" true, Word.emptyAt 19])
      { world := () } { world := () } ∧
    ∃ resolved, LeadsOn emptyCatalog "/" .bash layeredRoot
      (directoryWords ++ [Word.ofText "remote" true, Word.emptyAt 19])
      { world := () } resolved := by
  have hcomplete : ∀ word ∈ directoryWords, word.complete = true := by decide
  have hlocated : (emptyCatalog.locate "/" .bash (directoryWords ++ [Word.emptyAt 8])
      layeredRoot).run { world := () } = (.ok (some directoryContext), { world := () }) := by
    with_unfolding_all rfl
  let plain : Suggestion := { name := "--no-pager", kind := .option }
  let remote : Suggestion := { name := "remote", kind := .subcommand }
  have hsorted : [remote, plain].Pairwise fun a b => (Suggestion.rankOrder "" a b).isLE := by
    decide +kernel
  have hranked : Suggestion.rank "" [remote, plain] = [remote, plain] := by
    rw [Suggestion.rank, List.mergeSort_of_pairwise hsorted]
    decide +kernel
  have hoffered : byGrammar [] directoryContext [] = some [remote, plain] :=
    congrArg some hranked
  have hplain : plain ∈ [remote, plain] := by simp
  have hremote : remote ∈ [remote, plain] := by simp
  have hchild : FromChild directoryContext remote :=
    ⟨rfl, _, List.mem_singleton_self _, by decide +kernel⟩
  obtain ⟨leadsOn, -⟩ := locate_offered 19 hcomplete rfl hlocated hoffered hplain
  obtain ⟨-, leadsOnTo⟩ := locate_offered 19 hcomplete rfl hlocated hoffered hremote
  exact ⟨hcomplete, hlocated, leadsOn rfl (by decide +kernel),
    _, leadsOnTo _ _ hchild (by decide +kernel) rfl⟩

end Catalog

end CommandCompletion
