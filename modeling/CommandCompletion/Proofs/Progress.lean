/-
How far a walk has come, and what it depends on.

A walk uses up complete words from the left and never looks past the word in
front, except to see that a command it hands over to has a word of its own. So
what comes after the complete words can be exchanged for anything else that is
not empty, and the walk takes the same way with the same lookups
(`Reaches.swapTail`).

A walk can be repeated as well: in any memory that extends the one it left, it
takes the same way and finds everything it asks for remembered
(`Reaches.replay`).
-/
import CommandCompletion.Proofs.Turns

set_option autoImplicit false

namespace CommandCompletion.Walk

variable {σ : Type} {catalog : Catalog σ} {directory : String} {shell : Shell}
variable {memory middle after later : Memory σ} {walk last : Walk} {move : Move}
variable {word : Word} {rest : List Word} {turns : List (Walk × Move)}

/-! ## The words that were used -/

/-- Where an option is next, the word in front is complete and names it. A walk that starts at a
command is so (`namesNext_of_command`) and every move keeps it (`Goes.namesNext`), which is why
taking the option need not look at the word a second time. -/
def NamesNext (walk : Walk) : Prop :=
  ∀ option, walk.stage = .option option → ∃ word rest, walk.words = word :: rest ∧
    word.complete = true ∧ word.isOption = true ∧
    CommandOption.find? word.text walk.inherited walk.node.options = some option

/-- A walk that begins stands at a command, so no option is next. -/
theorem namesNext_of_command {argsExhausted argsUsed : Bool}
    (hstage : walk.stage = .command argsExhausted argsUsed) : walk.NamesNext := by
  intro option h
  rw [hstage] at h
  cases h

/-- Only going on to an option leads to that stage, and the word is looked up
then. -/
theorem Goes.namesNext (h : Goes catalog memory walk move after) :
    (walk.perform move).NamesNext := by
  intro option hstage
  cases h with
  | beginOption hwords hcomplete _ hoption hfound =>
    cases hstage
    exact ⟨_, _, hwords, hcomplete, hoption, hfound⟩
  | takeOption =>
    unfold perform at hstage
    dsimp only at hstage
    split at hstage <;> cases hstage
  | _ => cases hstage

theorem Reaches.namesNext (h : Reaches catalog memory walk turns last after)
    (hnames : walk.NamesNext) : last.NamesNext := by
  induction h with
  | here => exact hnames
  | go hgoes _ ih => exact ih hgoes.namesNext

/-- A turn uses no word, or the one in front, which is complete then. -/
theorem Goes.words (h : Goes catalog memory walk move after) (hnames : walk.NamesNext) :
    (walk.perform move).words = walk.words ∨
      ∃ word rest, walk.words = word :: rest ∧ word.complete = true ∧
        (walk.perform move).words = rest := by
  cases h with
  | beginOption | beginArguments | endArguments => exact .inl rfl
  | enter hwords hcomplete => exact .inr ⟨_, _, hwords, hcomplete, by simp [perform, hwords]⟩
  | takeOption hstage =>
    obtain ⟨word, rest, hwords, hcomplete, -⟩ := hnames _ hstage
    exact .inr ⟨word, rest, hwords, hcomplete, by simp [perform, hwords]⟩
  | repeatSlot _ hwords hcomplete | fillSlot _ hwords hcomplete | delegate _ hwords hcomplete =>
    exact .inr ⟨_, _, hwords, hcomplete, by simp [perform, hwords]⟩

/-- The words a walk has used are those in front of what is left, all complete. The induction is on
the turns, with `NamesNext` carried along: without it a walk could begin where an option is taken
and use up a word that is still being typed. -/
theorem Reaches.words (h : Reaches catalog memory walk turns last after)
    (hnames : walk.NamesNext) :
    ∃ used, walk.words = used ++ last.words ∧ ∀ word ∈ used, word.complete = true := by
  induction h with
  | here => exact ⟨[], rfl, by simp⟩
  | go hgoes _ ih =>
    obtain ⟨used, hused, hcomplete⟩ := ih hgoes.namesNext
    obtain hsame | ⟨word, rest, hwords, hword, hrest⟩ := hgoes.words hnames
    · exact ⟨used, by rw [← hsame, hused], hcomplete⟩
    · refine ⟨word :: used, by rw [hwords, ← hrest, hused, List.cons_append], ?_⟩
      intro other hother
      rcases List.mem_cons.mp hother with rfl | hmem
      · exact hword
      · exact hcomplete other hmem

/-- Where a walk arrives over complete words and one in progress, just the one in
progress is left. -/
theorem Reaches.words_of_arrives {earlier : List Word} {current : Word} {context : Context Nat}
    (h : Reaches catalog memory walk turns last after) (hnames : walk.NamesNext)
    (hwords : walk.words = earlier ++ [current])
    (hearlier : ∀ word ∈ earlier, word.complete = true) (hcurrent : current.complete = false)
    (harrives : last.Arrives directory shell context) : last.words = [current] := by
  obtain ⟨used, hused, hcomplete⟩ := h.words hnames
  rw [hwords] at hused
  rcases List.append_eq_append_iff.mp hused with ⟨more, rfl, hmore⟩ | ⟨more, rfl, hmore⟩
  · cases more with
    | nil => exact hmore.symm
    | cons first more =>
      -- The walk would have used the word in progress.
      have hfirst : current = first := by
        simp only [List.cons_append, List.cons.injEq] at hmore
        exact hmore.1
      have hcontra := hcomplete first (by simp)
      rw [← hfirst, hcurrent] at hcontra
      cases hcontra
  · cases more with
    | nil => exact hmore
    | cons first more =>
      -- The walk would have stopped at a complete word.
      have hfirst := hearlier first (by simp)
      have hwaits := harrives.1 first (by rw [hmore]; rfl)
      rw [hfirst] at hwaits
      cases hwaits

/-! ## Exchanging what comes after -/

/-- The same walk with other words before it. -/
def withWords (walk : Walk) (words : List Word) : Walk := { walk with words := words }

theorem Passes.withWords (h : Passes catalog memory walk word after) (words : List Word) :
    Passes catalog memory (walk.withWords words) word after := by
  cases h with
  | shut hshut => exact .shut hshut
  | missed hopen hplain hmissed => exact .missed hopen hplain hmissed

/-- A complete word in front stands before a tail that begins with a word in
progress. -/
theorem exists_front_of_complete {front tail : List Word} (hwords : word :: rest = front ++ tail)
    (hcomplete : word.complete = true) (hwaits : ∀ word ∈ tail.head?, word.complete = false) :
    ∃ front', front = word :: front' ∧ rest = front' ++ tail := by
  cases front with
  | nil =>
    have hcontra := hwaits word (by rw [List.nil_append] at hwords; rw [← hwords]; rfl)
    rw [hcomplete] at hcontra
    cases hcontra
  | cons first front =>
    simp only [List.cons_append, List.cons.injEq] at hwords
    obtain ⟨rfl, hrest⟩ := hwords
    exact ⟨front, rfl, hrest⟩

/-- **A turn does not depend on what comes after the complete words.** Every rule looks at the word
in front, which is complete and so belongs to `front`. The rule that hands over to a command asks
besides that more words follow, and for that `other` must not be empty. -/
theorem Goes.swapTail {front tail other : List Word} (h : Goes catalog memory walk move after)
    (hnames : walk.NamesNext) (hwords : walk.words = front ++ tail)
    (hwaits : ∀ word ∈ tail.head?, word.complete = false) (hother : other ≠ []) :
    ∃ front', (walk.perform move).words = front' ++ tail ∧
      Goes catalog memory (walk.withWords (front ++ other)) move after ∧
      (walk.withWords (front ++ other)).perform move =
        (walk.perform move).withWords (front' ++ other) := by
  -- The word that a rule looks at is in `front`, since the tail begins with a word in progress.
  have complete : ∀ {word rest}, walk.words = word :: rest → word.complete = true →
      ∃ front', front = word :: front' ∧ rest = front' ++ tail := by
    intro word rest hfirst hcomplete
    exact exists_front_of_complete (by rw [← hfirst, hwords]) hcomplete hwaits
  cases h with
  | beginOption hfirst hcomplete hopen hoption hfound =>
    obtain ⟨front', rfl, rfl⟩ := complete hfirst hcomplete
    exact ⟨_, hwords, .beginOption rfl hcomplete hopen hoption hfound, rfl⟩
  | enter hfirst hcomplete hopen hplain hchild =>
    obtain ⟨front', rfl, rfl⟩ := complete hfirst hcomplete
    refine ⟨front', by simp [perform, hfirst], .enter rfl hcomplete hopen hplain hchild, ?_⟩
    simp only [perform, withWords, take, hfirst, List.cons_append, List.tail_cons]
  | beginArguments hstage hfirst hcomplete hpasses hargs =>
    obtain ⟨front', rfl, rfl⟩ := complete hfirst hcomplete
    exact ⟨_, hwords, .beginArguments hstage rfl hcomplete (hpasses.withWords _) hargs, rfl⟩
  | endArguments hstage => exact ⟨_, hwords, .endArguments hstage, rfl⟩
  | takeOption hstage hfirst =>
    obtain ⟨word, rest, hfirst, hcomplete, -⟩ := hnames _ hstage
    obtain ⟨front', rfl, rfl⟩ := complete hfirst hcomplete
    refine ⟨front', by simp [perform, hfirst], .takeOption hstage rfl, ?_⟩
    simp only [perform, withWords, take, hfirst, List.cons_append]
  | repeatSlot hstage hfirst hcomplete hpasses hvariadic =>
    obtain ⟨front', rfl, rfl⟩ := complete hfirst hcomplete
    refine ⟨front', by simp [perform, hfirst],
      .repeatSlot hstage rfl hcomplete (hpasses.withWords _) hvariadic, ?_⟩
    simp only [perform, withWords, take, hfirst, List.cons_append]
  | fillSlot hstage hfirst hcomplete hpasses hvariadic hcommand =>
    obtain ⟨front', rfl, rfl⟩ := complete hfirst hcomplete
    refine ⟨front', by simp [perform, hfirst],
      .fillSlot hstage rfl hcomplete (hpasses.withWords _) hvariadic hcommand, ?_⟩
    simp only [perform, withWords, take, hfirst, List.cons_append]
  | delegate hstage hfirst hcomplete hpasses hvariadic hcommand _ hroot =>
    obtain ⟨front', rfl, rfl⟩ := complete hfirst hcomplete
    have hmore : front' ++ other ≠ [] := List.append_ne_nil_of_right_ne_nil _ hother
    refine ⟨front', by simp [perform, hfirst],
      .delegate hstage rfl hcomplete (hpasses.withWords _) hvariadic hcommand hmore hroot, ?_⟩
    simp only [perform, withWords, hfirst, List.cons_append, List.tail_cons]

/-- **A walk takes the same way whatever comes after the complete words**, as far as it goes. The
turns differ only in the words they record. The induction is on the turns with `front` general,
because each turn may take a word off it. -/
theorem Reaches.swapEnd {front tail other : List Word}
    (h : Reaches catalog memory walk turns last after) (hnames : walk.NamesNext)
    (hwords : walk.words = front ++ tail)
    (hwaits : ∀ word ∈ tail.head?, word.complete = false) (hother : other ≠ []) :
    ∃ front' turns', last.words = front' ++ tail ∧
      Reaches catalog memory (walk.withWords (front ++ other)) turns'
        (last.withWords (front' ++ other)) after := by
  induction h generalizing front with
  | here memory walk => exact ⟨front, [], hwords, .here memory _⟩
  | go hgoes _ ih =>
    obtain ⟨front', hrest, hgoes', hperform⟩ := hgoes.swapTail hnames hwords hwaits hother
    obtain ⟨left, turns', hleft, hreaches⟩ := ih hgoes.namesNext hrest
    refine ⟨left, _ :: turns', hleft, .go hgoes' ?_⟩
    rw [hperform]
    exact hreaches

/-- So a walk that has used all complete words does, whatever comes after them. -/
theorem Reaches.swapTail {front tail other : List Word}
    (h : Reaches catalog memory walk turns last after) (hnames : walk.NamesNext)
    (hwords : walk.words = front ++ tail) (hlast : last.words = tail)
    (hwaits : ∀ word ∈ tail.head?, word.complete = false) (hother : other ≠ []) :
    ∃ turns', Reaches catalog memory (walk.withWords (front ++ other)) turns'
      (last.withWords other) after := by
  obtain ⟨left, turns', hleft, hreaches⟩ := h.swapEnd hnames hwords hwaits hother
  rw [hlast] at hleft
  have hnone : left = [] := List.append_left_eq_self.mp hleft.symm
  subst hnone
  exact ⟨turns', hreaches⟩

/-! ## Going on and repeating -/

theorem Reaches.trans {other : Walk} {more : List (Walk × Move)}
    (h : Reaches catalog memory walk turns last middle)
    (h' : Reaches catalog middle last more other after) :
    Reaches catalog memory walk (turns ++ more) other after := by
  induction h with
  | here => exact h'
  | go hgoes _ ih => exact .go hgoes (ih h')

/-- At every turn of a walk, the part before it leads to where it is made. What happened at one
place of a finished walk is looked at through this lemma: the rule that was used there, in the
memory it was used in. -/
theorem Reaches.split {before rest : List (Walk × Move)} {current : Walk}
    (h : Reaches catalog memory walk turns last after)
    (hturns : turns = before ++ (current, move) :: rest) :
    ∃ here there, Reaches catalog memory walk before current here ∧
      Goes catalog here current move there ∧
      Reaches catalog there (current.perform move) rest last after := by
  induction h generalizing before with
  | here => simp at hturns
  | go hgoes hreaches ih =>
    cases before with
    | nil =>
      simp only [List.nil_append, List.cons.injEq, Prod.mk.injEq] at hturns
      obtain ⟨⟨rfl, rfl⟩, rfl⟩ := hturns
      exact ⟨_, _, .here _ _, hgoes, hreaches⟩
    | cons first before =>
      simp only [List.cons_append, List.cons.injEq] at hturns
      obtain ⟨rfl, hturns⟩ := hturns
      obtain ⟨here, there, hbefore, hmove, hrest⟩ := ih hturns
      exact ⟨here, there, .go hgoes hbefore, hmove, hrest⟩

theorem Passes.extends (h : Passes catalog memory walk word after) : memory.Extends after := by
  cases h with
  | shut => exact .refl _
  | missed _ _ hmissed => exact Catalog.extends_of_resolveChild hmissed

theorem Goes.extends (h : Goes catalog memory walk move after) : memory.Extends after := by
  cases h with
  | beginOption | endArguments | takeOption => exact .refl _
  | enter _ _ _ _ hchild => exact Catalog.extends_of_resolveChild hchild
  | beginArguments _ _ _ hpasses => exact hpasses.extends
  | repeatSlot _ _ _ hpasses | fillSlot _ _ _ hpasses => exact hpasses.extends
  | delegate _ _ _ hpasses _ _ _ hroot =>
    exact hpasses.extends.trans (Catalog.extends_of_loadRoot hroot)

theorem Reaches.extends (h : Reaches catalog memory walk turns last after) :
    memory.Extends after := by
  induction h with
  | here => exact .refl _
  | go hgoes _ ih => exact hgoes.extends.trans ih

theorem Passes.replay (h : Passes catalog memory walk word after)
    (hlater : after.Extends later) : Passes catalog later walk word later := by
  cases h with
  | shut hshut => exact .shut hshut
  | missed hopen hplain hmissed =>
    exact .missed hopen hplain (Catalog.resolveChild_replay hmissed hlater)

/-- **A move that was made once can be made again later, and teaches nothing new.** The lookups of a
move are answered by what they left behind the first time (`resolveChild_replay`,
`loadRoot_replay`), and a child that was missed is missed again. This is the memoization that the
specification tests for (§ 8), for a single turn. -/
theorem Goes.replay (h : Goes catalog memory walk move after) (hlater : after.Extends later) :
    Goes catalog later walk move later := by
  cases h with
  | beginOption hwords hcomplete hopen hoption hfound =>
    exact .beginOption hwords hcomplete hopen hoption hfound
  | enter hwords hcomplete hopen hplain hchild =>
    exact .enter hwords hcomplete hopen hplain (Catalog.resolveChild_replay hchild hlater)
  | beginArguments hstage hwords hcomplete hpasses hargs =>
    exact .beginArguments hstage hwords hcomplete (hpasses.replay hlater) hargs
  | endArguments hstage => exact .endArguments hstage
  | takeOption hstage hwords => exact .takeOption hstage hwords
  | repeatSlot hstage hwords hcomplete hpasses hvariadic =>
    exact .repeatSlot hstage hwords hcomplete (hpasses.replay hlater) hvariadic
  | fillSlot hstage hwords hcomplete hpasses hvariadic hcommand =>
    exact .fillSlot hstage hwords hcomplete (hpasses.replay hlater) hvariadic hcommand
  | delegate hstage hwords hcomplete hpasses hvariadic hcommand hmore hroot =>
    -- The word was looked up as a child before its root was loaded, so the memory of the first
    -- lookup is extended by that of the second.
    have hpassed := hpasses.replay ((Catalog.extends_of_loadRoot hroot).trans hlater)
    exact .delegate hstage hwords hcomplete hpassed hvariadic hcommand hmore
      (Catalog.loadRoot_replay hroot hlater catalog ((Catalog.loadRoot_cases hroot).2 _ rfl).1)

/-- **A walk can be repeated in any later memory**, with the same turns, and leaves that memory as
it is. The induction is on the turns; what a later turn has learnt extends what this one has. -/
theorem Reaches.replay (h : Reaches catalog memory walk turns last after)
    (hlater : after.Extends later) : Reaches catalog later walk turns last later := by
  induction h with
  | here => exact .here later _
  | go hgoes hreaches ih => exact .go (hgoes.replay (hreaches.extends.trans hlater)) (ih hlater)

end CommandCompletion.Walk
