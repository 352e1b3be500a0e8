/-
How the words of a line are written has no influence on what is suggested.

A word means its text, whether it is complete and whether it reads as an option
(`Word.meaning`). Where its raw form stands and whether some of it was quoted is
known as well, but forgetting it (`Word.bare`) commutes with everything that is
done with words: a walk takes the same turns and asks the catalog the same
(`Walk.Goes.bare`), arrives at the same place or refuses in the same way, and
what is recommended there never looks at it.

The raw form is measured once, where the characters that a candidate replaces are
counted, and only that of the word in progress. So lines whose words mean the same,
with raw forms of one length where the last ones are in progress, are answered
alike and leave the same behind (`Engine.suggest_of_wordsAgree`).
-/
import CommandCompletion.Proofs.Stopping
import CommandCompletion.Proofs.UnknownCommands

set_option autoImplicit false

namespace CommandCompletion

/-! ## Words -/

namespace Word

/-- What a word means, however it is written: its text, whether it is complete, and whether it reads
as an option. -/
def meaning (word : Word) : String × Bool × Bool := (word.text, word.complete, word.isOption)

/-- The word without where it stands and without whether some of it was quoted. What is left is all
that a walk looks at. -/
def bare (word : Word) : Word := { word with isQuoted := false, span := ⟨0, 0⟩ }

variable {word : Word}

@[simp] theorem text_bare : word.bare.text = word.text := rfl

@[simp] theorem complete_bare : word.bare.complete = word.complete := rfl

/-- Reading a word as a path goes by its text, so it can be done before forgetting or after. -/
theorem bare_readAs (reading : PathReading) :
    (word.readAs reading).bare = word.bare.readAs reading := by
  unfold readAs
  by_cases hpath : reading.isPath = true
  · rw [if_pos hpath, if_pos hpath]
    rfl
  · rw [if_neg hpath, if_neg hpath]

/-- As it is read, nothing else is known about a word than what it means; whether it is persistent
and whether it is a path is found out later. -/
def ofMeaning : String × Bool × Bool → Word
  | (text, complete, isOption) =>
    { text := text, complete := complete, isOption := isOption, span := ⟨0, 0⟩ }

/-- A word that was just read off is known by its meaning and how it is written. -/
theorem bare_close (draft : Draft) (stop : Nat) (complete : Bool) :
    (draft.close stop complete).bare = ofMeaning (draft.close stop complete).meaning := rfl

end Word

/-! ## Walks -/

namespace Walk

variable {σ : Type} {catalog : Catalog σ} {directory : String} {shell : Shell}
variable {memory after : Memory σ} {walk last : Walk} {move : Move} {turns : List (Walk × Move)}
variable {word : Word} {rest : List Word} {context : Context Nat}

/-- The walk over bare words: those to come and those that were accepted. -/
def bare (walk : Walk) : Walk :=
  { walk with
    words := walk.words.map Word.bare
    accepted := walk.accepted.map Word.bare }

/-- Words that come after are not lost. -/
theorem map_bare_ne_nil (hrest : rest ≠ []) : rest.map Word.bare ≠ [] := by
  rwa [ne_eq, List.map_eq_nil_iff]

/-- The word in front is the same one, bare. -/
theorem words_bare (hwords : walk.words = word :: rest) :
    walk.bare.words = word.bare :: rest.map Word.bare := by
  show walk.words.map Word.bare = _
  rw [hwords, List.map_cons]

/-- Taking a word moves it over and flags it, which forgetting does not undo. -/
theorem bare_take (walk : Walk) (persist : Bool) :
    (walk.take persist).bare = walk.bare.take persist := by
  obtain ⟨words, node, inherited, accepted, stage⟩ := walk
  cases words with
  | nil => rfl
  | cons word rest =>
    simp only [bare, take, List.map_cons, List.map_append, List.map_nil]
    cases persist <;> rfl

/-- **Every move does the same with bare words**, so forgetting commutes with it. -/
theorem bare_perform (walk : Walk) (move : Move) :
    (walk.perform move).bare = walk.bare.perform move := by
  cases move with
  | beginArguments | endArguments | beginOption => rfl
  | takeOption option persist | takeValue _ _ _ persist =>
    have htake := bare_take walk persist
    simp only [bare, perform] at htake ⊢
    rw [← htake]
  | enter child =>
    have haccepted : (walk.bare.take false).accepted =
        (walk.take false).accepted.map Word.bare := by
      rw [← bare_take]
      rfl
    -- What is kept on the way into a child is chosen by a flag that bare words have too.
    have hkept : ((fun word : Word => word.isPersistent) ∘ Word.bare) =
        fun word => word.isPersistent := rfl
    simp only [bare, perform] at haccepted ⊢
    rw [haccepted, List.filter_map, hkept, List.map_tail]
  | delegate root =>
    simp only [bare, perform, List.map_tail, List.map_nil]

/-- A word that is no child is none when it is bare, since it is looked up by its text. -/
theorem Passes.bare (h : Passes catalog memory walk word after) :
    Passes catalog memory walk.bare word.bare after := by
  cases h with
  | shut hshut => exact .shut hshut
  | missed hopen hplain hmissed => exact .missed hopen hplain hmissed

/-- **A walk over bare words takes the same turns**, and the catalog is asked the same, since each
rule looks at texts and flags that are kept. -/
theorem Goes.bare (h : Goes catalog memory walk move after) :
    Goes catalog memory walk.bare move after := by
  -- No rule mentions what is forgotten; only the words in front have to be found again.
  cases h with
  | beginOption hwords hcomplete hopen hoption hfound =>
    exact .beginOption (words_bare hwords) hcomplete hopen hoption hfound
  | enter hwords hcomplete hopen hplain hchild =>
    exact .enter (words_bare hwords) hcomplete hopen hplain hchild
  | beginArguments hstage hwords hcomplete hpasses hargs =>
    exact .beginArguments hstage (words_bare hwords) hcomplete hpasses.bare hargs
  | endArguments hstage => exact .endArguments hstage
  | takeOption hstage hwords => exact .takeOption hstage (words_bare hwords)
  | repeatSlot hstage hwords hcomplete hpasses hvariadic =>
    exact .repeatSlot hstage (words_bare hwords) hcomplete hpasses.bare hvariadic
  | fillSlot hstage hwords hcomplete hpasses hvariadic hcommand =>
    exact .fillSlot hstage (words_bare hwords) hcomplete hpasses.bare hvariadic hcommand
  | delegate hstage hwords hcomplete hpasses hvariadic hcommand hmore hroot =>
    exact .delegate hstage (words_bare hwords) hcomplete hpasses.bare hvariadic hcommand
      (map_bare_ne_nil hmore) hroot

/-- So does a whole run, by induction on it. -/
theorem Reaches.bare (h : Reaches catalog memory walk turns last after) :
    ∃ turns', Reaches catalog memory walk.bare turns' last.bare after := by
  induction h with
  | here memory walk => exact ⟨[], .here memory walk.bare⟩
  | go hgoes _ ih =>
    obtain ⟨turns', hreaches⟩ := ih
    rw [bare_perform] at hreaches
    exact ⟨_, .go hgoes.bare hreaches⟩

/-- A walk over bare words refuses for the same reason, rule by rule as for the turns. -/
theorem Refuses.bare (h : Refuses catalog memory walk after) :
    Refuses catalog memory walk.bare after := by
  cases h with
  | unknownOption hwords hcomplete hopen hoption hunknown =>
    exact .unknownOption (words_bare hwords) hcomplete hopen hoption hunknown
  | unknownChild hstage hwords hcomplete hpasses hargs =>
    exact .unknownChild hstage (words_bare hwords) hcomplete hpasses.bare hargs
  | lastWord hstage hwords hcomplete hpasses hvariadic hcommand =>
    exact .lastWord hstage (words_bare hwords) hcomplete hpasses.bare hvariadic hcommand
  | unknownCommand hstage hwords hcomplete hpasses hvariadic hcommand hmore hroot =>
    exact .unknownCommand hstage (words_bare hwords) hcomplete hpasses.bare hvariadic hcommand
      (map_bare_ne_nil hmore) hroot

end Walk

/-! ## Places -/

/-- The place without how the words that led there were written, nor the word that is being typed.
-/
def Context.bare {ι : Type} (context : Context ι) : Context ι :=
  { context with
    current := context.current.map Word.bare
    accepted := context.accepted.map Word.bare }

/-- A walk over bare words arrives at the place, with what was forgotten missing. -/
theorem Walk.Arrives.bare {walk : Walk} {directory : String} {shell : Shell}
    {context : Context Nat} (h : walk.Arrives directory shell context) :
    walk.bare.Arrives directory shell context.bare := by
  obtain ⟨hwaits, expected, hexpected, rfl⟩ := h
  refine ⟨?_, expected, hexpected, ?_⟩
  · intro word hword
    rw [Walk.bare, List.head?_map, Option.mem_def, Option.map_eq_some_iff] at hword
    obtain ⟨written, hwritten, rfl⟩ := hword
    exact hwaits written hwritten
  · simp only [Walk.context, Context.bare, Walk.bare, List.head?_map]

namespace Catalog

variable {σ : Type} {catalog : Catalog σ} {directory : String} {shell : Shell}
variable {memory after : Memory σ} {words words' : List Word} {root : CatalogNode}

/-- Over bare words the place is the bare place, or there is none in both cases. -/
theorem locate_bare {place : Option (Context Nat)}
    (h : (catalog.locate directory shell words root).run memory = (.ok place, after)) :
    (catalog.locate directory shell (words.map Word.bare) root).run memory =
      (.ok (place.map Context.bare), after) := by
  cases place with
  | none =>
    obtain ⟨turns, last, middle, hreaches, hrefuses⟩ := locate_eq_none_iff.mp h
    obtain ⟨turns', hreaches'⟩ := hreaches.bare
    exact locate_eq_none_iff.mpr ⟨turns', last.bare, middle, hreaches', hrefuses.bare⟩
  | some context =>
    obtain ⟨turns, hrun⟩ := locate_eq_some_iff.mp h
    obtain ⟨last, hreaches, harrives⟩ := Walk.reaches_of_run hrun
    obtain ⟨turns', hreaches'⟩ := hreaches.bare
    exact locate_eq_some_iff.mpr ⟨turns', Walk.run_of_reaches hreaches' harrives.bare⟩

/-- **Words that mean the same lead to the same place**, and leave the same behind: both runs are
compared with the one over bare words. -/
theorem locate_of_bare_eq (hsame : words.map Word.bare = words'.map Word.bare)
    (memory : Memory σ) : ∃ place place' after,
      (catalog.locate directory shell words root).run memory = (.ok place, after) ∧
      (catalog.locate directory shell words' root).run memory = (.ok place', after) ∧
      place.map Context.bare = place'.map Context.bare := by
  obtain ⟨⟨found, after⟩, hrun⟩ : ∃ result,
      (catalog.locate directory shell words root).run memory = result := ⟨_, rfl⟩
  obtain ⟨⟨found', after'⟩, hrun'⟩ : ∃ result,
      (catalog.locate directory shell words' root).run memory = result := ⟨_, rfl⟩
  obtain ⟨place, rfl⟩ := exists_ok_of_locate hrun
  obtain ⟨place', rfl⟩ := exists_ok_of_locate hrun'
  -- Over bare words the two are one and the same run.
  have hbare := locate_bare hrun
  rw [hsame, locate_bare hrun', Prod.mk.injEq, Except.ok.injEq] at hbare
  obtain ⟨hplace, rfl⟩ := hbare
  exact ⟨place, place', after', hrun, hrun', hplace.symm⟩

end Catalog

/-! ## Recommenders -/

/-- What is recommended does not depend on how words are written. A recommender could look at it, as
the place has the words. -/
def Recommender.IgnoresForms (recommender : Recommender Nat) : Prop :=
  ∀ (a b : Context Nat) (entries : List (String × Bool)), a.bare = b.bare →
    recommender a entries = recommender b entries

namespace Context

variable {ι : Type} (context : Context ι)

/-- What counts as typed is the text of the word, or its last segment. -/
theorem typed_bare : context.bare.typed = context.typed := by
  obtain ⟨expected, node, inherited, current, accepted, directory, shell⟩ := context
  cases current <;> rfl

/-- Whether an option was used is a question of the texts that were accepted. -/
theorem isUsed_bare (option : CommandOption) :
    context.bare.isUsed option = context.isUsed option := by
  unfold isUsed bare
  rw [List.any_map]
  rfl

end Context

namespace Recommendation

variable {ι : Type}

/-- So the same children and options fit. -/
theorem childrenAndOptions_bare (context : Context ι) (typed : String) :
    childrenAndOptions context.bare typed = childrenAndOptions context typed := by
  have hoption : ∀ option,
      ofOption? context.bare typed option = ofOption? context typed option := by
    intro option
    unfold ofOption?
    rw [Context.isUsed_bare]
  unfold childrenAndOptions
  rw [funext hoption]
  rfl

/-- And the same is recommended: children, options and values of the slot. -/
theorem byGrammar_bare (commands : List String) (context : Context ι)
    (entries : List (String × Bool)) :
    byGrammar commands context.bare entries = byGrammar commands context entries := by
  have hnode : context.bare.node = context.node := rfl
  have hexpected : context.bare.expected = context.expected := rfl
  have hvalues : ∀ typed slot, slotValues commands entries context.bare typed slot =
      slotValues commands entries context typed slot := fun _ _ => rfl
  unfold byGrammar candidates?
  simp only [Context.typed_bare, childrenAndOptions_bare, hnode, hexpected, hvalues]

/-- The recommender that goes by the grammar looks at what words mean alone. -/
theorem byGrammar_ignoresForms (commands : List String) :
    Recommender.IgnoresForms (byGrammar commands) := by
  intro a b entries hsame
  rw [← byGrammar_bare commands a, ← byGrammar_bare commands b, hsame]

end Recommendation

/-! ## Lines -/

/-- The words of the two lines mean the same, one by one. Where the last ones are in progress, their
raw forms have the same number of characters. Nothing is asked of the raw forms of the others, nor
of the blanks. -/
structure Shell.WordsAgree (shell : Shell) (line line' : String) : Prop where
  meaning : (shell.words line).map Word.meaning = (shell.words line').map Word.meaning
  rawLength : ∀ last ∈ (shell.words line).getLast?, ∀ last' ∈ (shell.words line').getLast?,
    last.complete = false → last.rawLength line = last'.rawLength line'

/-- Of the words of a line, nothing is known but what they mean and how they are written, so lines
whose words mean the same have the same bare words. -/
theorem Shell.map_bare_words (shell : Shell) (line : String) :
    (shell.words line).map Word.bare =
      ((shell.words line).map Word.meaning).map Word.ofMeaning := by
  have hread : ∀ word ∈ (shell.readFrom 0 none line.toList).1,
      word.bare = Word.ofMeaning word.meaning := by
    intro word hmem
    obtain ⟨draft, stop, rfl⟩ := Shell.exists_close_of_mem_readFrom hmem
    exact Word.bare_close draft stop true
  rw [List.map_map]
  apply List.map_congr_left
  intro word hmem
  rcases shell.readFrom_line_cases line with ⟨ended, hline⟩ | ⟨ended, last, hline⟩
  · rw [Shell.words_of_readFrom_none hline] at hmem
    exact hread word (by rw [hline]; exact hmem)
  · rw [Shell.words_of_readFrom_some hline, List.mem_append, List.mem_singleton] at hmem
    rcases hmem with hended | rfl
    · exact hread word (by rw [hline]; exact hended)
    · exact Word.bare_close last _ false

namespace TypedLine

variable {shell : Shell} {line line' : String} {typed typed' : TypedLine}

/-- The line as a completion sees it, over bare words. -/
def bare (typed : TypedLine) : TypedLine :=
  { typed with
    earlier := typed.earlier.map Word.bare
    current := typed.current.bare }

/-- A line without words is not completed. -/
theorem ofLine?_of_noWords (h : (shell.words line).getLast? = none) :
    ofLine? shell line = none := by
  unfold ofLine?
  dsimp only
  rw [h]

/-- Behind a complete word another one is to come, and it is empty. -/
theorem ofLine?_of_complete {last : Word} (h : (shell.words line).getLast? = some last)
    (hcomplete : last.complete = true) : ofLine? shell line = some {
      earlier := shell.words line
      current := Word.emptyAt (Text.byteLength line.toList)
      betweenWords := true } := by
  unfold ofLine?
  dsimp only
  rw [h]
  exact if_pos hcomplete

/-- A word in progress is the one that is completed. -/
theorem ofLine?_of_inProgress {last : Word} (h : (shell.words line).getLast? = some last)
    (hcomplete : last.complete = false) : ofLine? shell line = some {
      earlier := (shell.words line).dropLast
      current := last
      betweenWords := false } := by
  unfold ofLine?
  dsimp only
  rw [h]
  exact if_neg (Bool.eq_false_iff.mp hcomplete)

/-- **Lines whose words agree are seen alike**: both have no words, or both a word to come, or both
one in progress, as their last words are both complete or both not. -/
theorem bare_of_wordsAgree (h : shell.WordsAgree line line') :
    ofLine? shell line = none ∧ ofLine? shell line' = none ∨
    ∃ typed typed', ofLine? shell line = some typed ∧ ofLine? shell line' = some typed' ∧
      typed.bare = typed'.bare ∧ typed.current.rawLength line = typed'.current.rawLength line' := by
  have hwords : (shell.words line).map Word.bare = (shell.words line').map Word.bare := by
    rw [Shell.map_bare_words, Shell.map_bare_words, h.meaning]
  have hends := congrArg List.getLast? hwords
  rw [List.getLast?_map, List.getLast?_map] at hends
  cases hend : (shell.words line).getLast? with
  | none =>
    rw [hend, Option.map_none, eq_comm, Option.map_eq_none_iff] at hends
    exact .inl ⟨ofLine?_of_noWords hend, ofLine?_of_noWords hends⟩
  | some last =>
    rw [hend, Option.map_some, eq_comm, Option.map_eq_some_iff] at hends
    obtain ⟨last', hend', hbare⟩ := hends
    -- The two last words are the same but for their forms, so both are complete or neither is.
    have hsame : last'.complete = last.complete := by
      rw [← Word.complete_bare, hbare, Word.complete_bare]
    right
    cases hcomplete : last.complete with
    | true =>
      rw [hcomplete] at hsame
      refine ⟨_, _, ofLine?_of_complete hend hcomplete, ofLine?_of_complete hend' hsame, ?_, ?_⟩
      · -- The words to come stand at the ends of the lines, which is forgotten.
        simp only [bare, hwords]
        rfl
      · rw [Word.rawLength_emptyAt, Word.rawLength_emptyAt]
    | false =>
      rw [hcomplete] at hsame
      have hfront := congrArg List.dropLast hwords
      rw [← List.map_dropLast, ← List.map_dropLast] at hfront
      refine ⟨_, _, ofLine?_of_inProgress hend hcomplete, ofLine?_of_inProgress hend' hsame, ?_,
        h.rawLength last hend last' hend' hcomplete⟩
      simp only [bare, hfront, hbare]

end TypedLine

/-! ## Answers -/

namespace Engine

variable {σ : Type} {engine : Engine σ} {home : Option String} {shell : Shell}
variable {cwd line line' : String} {typed typed' : TypedLine}

/-- The command is looked up by its text. -/
theorem command?_bare : engine.command? typed.bare = engine.command? typed := by
  obtain ⟨earlier, current, betweenWords⟩ := typed
  cases earlier <;> rfl

/-- What a line comes to from a grammar, with the reading of its last word named. -/
theorem run_locateFrom_some {root : CatalogNode} {place : Option (Context Nat)}
    {memory after : Memory σ} {reading : PathReading}
    (hreading : engine.readingIn home shell cwd memory typed.current.text = reading)
    (h : (engine.catalog.locate reading.directory shell
        (typed.earlier.tail ++ [typed.current.readAs reading]) root).run memory =
      (.ok place, after)) :
    (engine.locateFrom home shell cwd line typed (some root)).run memory =
      (.ok (place, charactersToDrop shell line typed.current reading), after) := by
  have hhost : (engine.host home).run memory =
      ({ files := engine.files memory.world, home := home }, memory) := rfl
  subst hreading
  unfold locateFrom
  rw [Recall.run_bind_of hhost]
  exact Recall.run_bind_of h

/-- From the same grammar, lines that are seen alike lead to the same place, and a candidate
replaces as many characters: those of the raw form, or of the last segment of the text. -/
theorem locateFrom_of_bare_eq (hbare : typed.bare = typed'.bare)
    (hraw : typed.current.rawLength line = typed'.current.rawLength line')
    (root? : Option CatalogNode) (memory : Memory σ) : ∃ place place' dropped after,
      (engine.locateFrom home shell cwd line typed root?).run memory =
        (.ok (place, dropped), after) ∧
      (engine.locateFrom home shell cwd line' typed' root?).run memory =
        (.ok (place', dropped), after) ∧
      place.map Context.bare = place'.map Context.bare := by
  have hearlier : typed.earlier.map Word.bare = typed'.earlier.map Word.bare :=
    congrArg TypedLine.earlier hbare
  have hcurrent : typed.current.bare = typed'.current.bare := congrArg TypedLine.current hbare
  have htext : typed.current.text = typed'.current.text := by
    rw [← Word.text_bare, hcurrent, Word.text_bare]
  cases root? with
  | none =>
    have hwords : typed.words.map Word.bare = typed'.words.map Word.bare := by
      unfold TypedLine.words
      rw [List.map_append, List.map_append, hearlier, List.map_singleton, List.map_singleton,
        hcurrent]
    have hbetween : typed.betweenWords = typed'.betweenWords := by
      show typed.bare.betweenWords = typed'.bare.betweenWords
      rw [hbare]
    obtain ⟨place, place', after, hrun, hrun', hsame⟩ := Catalog.locate_of_bare_eq hwords memory
    refine ⟨place, place', typed.current.rawLength line, after, ?_, ?_, hsame⟩
    · unfold locateFrom
      rw [Recall.run_bind_of hrun]
      rfl
    · unfold locateFrom
      rw [← hbetween, Recall.run_bind_of hrun', hraw]
      rfl
  | some root =>
    -- Whether the word reads as a path is found out from its text.
    have hreading : engine.readingIn home shell cwd memory typed'.current.text =
        engine.readingIn home shell cwd memory typed.current.text := by rw [htext]
    generalize engine.readingIn home shell cwd memory typed.current.text = reading at hreading
    have hwords : (typed.earlier.tail ++ [typed.current.readAs reading]).map Word.bare =
        (typed'.earlier.tail ++ [typed'.current.readAs reading]).map Word.bare := by
      rw [List.map_append, List.map_append, List.map_tail, List.map_tail, hearlier,
        List.map_singleton, List.map_singleton, Word.bare_readAs, Word.bare_readAs, hcurrent]
    have hdropped : charactersToDrop shell line typed.current reading =
        charactersToDrop shell line' typed'.current reading := by
      unfold charactersToDrop
      rw [htext, hraw]
    obtain ⟨place, place', after, hrun, hrun', hsame⟩ := Catalog.locate_of_bare_eq hwords memory
    refine ⟨place, place', charactersToDrop shell line typed.current reading, after,
      run_locateFrom_some (by rw [htext, hreading]) hrun, ?_, hsame⟩
    rw [hdropped]
    exact run_locateFrom_some hreading hrun'

/-- At places that differ in how words are written the same is offered, from the entries of the same
directory. -/
theorem offer_of_bare_eq {place place' : Option (Context Nat)} {dropped : Nat}
    (hrecommender : engine.recommender.IgnoresForms)
    (hsame : place.map Context.bare = place'.map Context.bare) :
    engine.offer home (.ok (place, dropped)) = engine.offer home (.ok (place', dropped)) := by
  have hforget : ∀ a b : Context Nat, a.bare = b.bare → a.directory = b.directory ∧
      ∀ entries, engine.recommender a entries = engine.recommender b entries := by
    intro a b hbare
    refine ⟨?_, fun entries => hrecommender a b entries hbare⟩
    show a.bare.directory = b.bare.directory
    rw [hbare]
  refine bind_congr fun host => ?_
  exact congrArg (fun offered => pure (Except.ok offered)) (offered_of_map_eq hforget hsame)

/-- **Spacing and quoting style do not matter** (specification, § E2.5). Two lines whose words mean
the same, one by one, get the same suggestions, which replace as many characters, and leave the same
memory behind; where the last words are in progress, their raw forms have to have the same length.
The lines are seen alike, so they lead to places that differ in forms alone, and what is offered
there does not look at forms. -/
theorem suggest_of_wordsAgree (engine : Engine σ) (commands : List String)
    (hrecommender : engine.recommender = Recommendation.byGrammar commands)
    (home : Option String) (cwd : String) (memory : Memory σ)
    (hagree : shell.WordsAgree line line') :
    (engine.suggest home shell cwd line).run memory =
      (engine.suggest home shell cwd line').run memory := by
  have hforms : engine.recommender.IgnoresForms := by
    rw [hrecommender]
    exact Recommendation.byGrammar_ignoresForms commands
  rcases TypedLine.bare_of_wordsAgree hagree with ⟨hnone, hnone'⟩ |
    ⟨typed, typed', htyped, htyped', hbare, hraw⟩
  · unfold suggest
    rw [hnone, hnone']
  · have hcommand : engine.command? typed' = engine.command? typed := by
      rw [← command?_bare, ← hbare, command?_bare]
    rw [suggest_eq_offer htyped, suggest_eq_offer htyped', locate_eq, locate_eq, bind_assoc,
      bind_assoc, hcommand]
    obtain ⟨⟨root?, loaded⟩, hroot⟩ : ∃ result, (engine.command? typed).run memory = result :=
      ⟨_, rfl⟩
    obtain ⟨place, place', dropped, after, hplace, hplace', hsame⟩ :=
      locateFrom_of_bare_eq hbare hraw root? loaded
    rw [Recall.run_bind_of hroot, Recall.run_bind_of hroot, Recall.run_bind_of hplace,
      Recall.run_bind_of hplace', offer_of_bare_eq hforms hsame]

/-- A quoted command and a tab make no difference to a word with an open quote, though every raw
form but the last is another. -/
theorem suggest_of_wordsAgree_quoted : ∃ result after,
    Shell.bash.WordsAgree "cd  'sr" "\"c\"d\t'sr" ∧
    (folderEngine.suggest none .bash "/w" "cd  'sr").run spacedMemory =
      (.ok (some result), after) ∧
    (folderEngine.suggest none .bash "/w" "\"c\"d\t'sr").run spacedMemory =
      (.ok (some result), after) := by
  have hagree : Shell.bash.WordsAgree "cd  'sr" "\"c\"d\t'sr" :=
    ⟨by decide +kernel, by decide +kernel⟩
  obtain ⟨result, after, hsuggest, -⟩ :=
    exists_of_dropped? (by decide +kernel : dropped? "cd  'sr" = some 3)
  have hsame := suggest_of_wordsAgree folderEngine folderEngine.catalog.rootNames rfl none "/w"
    spacedMemory hagree
  exact ⟨result, after, hagree, hsuggest, hsame ▸ hsuggest⟩

end Engine

end CommandCompletion
