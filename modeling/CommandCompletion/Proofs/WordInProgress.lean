/-
The word being typed has no say in where it stands.

A walk stops in front of the first word that is not complete, so neither that word
nor anything after it can lead it elsewhere. The only thing a walk asks about the
words ahead is whether a command that is to take over has a word after it, and the
word in progress is one, whatever it says.

So over the same complete words, two lines with different words in progress are
both refused, or both lead to the same place, and what is remembered afterwards is
the same (`Catalog.locate_of_typing`): no loader, source or generator ever hears of
a word that is not finished.
-/
import CommandCompletion.Proofs.OptionScope
import CommandCompletion.Proofs.Refusals
import CommandCompletion.Proofs.Stopping

set_option autoImplicit false

namespace CommandCompletion

variable {σ : Type} {catalog : Catalog σ} {directory : String} {shell : Shell}
variable {memory after : Memory σ} {root : CatalogNode}
variable {earlier later : List Word} {typed other : Word}

/-! ## Walks -/

namespace Walk

variable {walk last : Walk} {turns : List (Walk × Move)} {front tail : List Word}

/-- **A refusal does not depend on what comes after the complete words**, as long as something does.
The refused word is complete, so it is in front of what is exchanged. Only the refusal of a last
word looks further, and it is impossible with a word in progress behind. -/
theorem Refuses.swapTail {swapped : List Word} (h : Refuses catalog memory walk after)
    (hwords : walk.words = front ++ tail) (hwaits : ∀ word ∈ tail.head?, word.complete = false)
    (htail : tail ≠ []) (hswapped : swapped ≠ []) :
    Refuses catalog memory (walk.withWords (front ++ swapped)) after := by
  have complete : ∀ {word rest}, walk.words = word :: rest → word.complete = true →
      ∃ front', front = word :: front' ∧ rest = front' ++ tail := by
    intro word rest hfirst hcomplete
    exact exists_front_of_complete (by rw [← hfirst, hwords]) hcomplete hwaits
  cases h with
  | unknownOption hfirst hcomplete hopen hoption hunknown =>
    obtain ⟨front', rfl, rfl⟩ := complete hfirst hcomplete
    exact .unknownOption rfl hcomplete hopen hoption hunknown
  | unknownChild hstage hfirst hcomplete hpasses hargs =>
    obtain ⟨front', rfl, rfl⟩ := complete hfirst hcomplete
    exact .unknownChild hstage rfl hcomplete (hpasses.withWords _) hargs
  | lastWord _ hfirst hcomplete =>
    -- The word in progress comes after it, so it is not the last one.
    obtain ⟨front', -, hrest⟩ := complete hfirst hcomplete
    exact absurd (List.append_eq_nil_iff.mp hrest.symm).2 htail
  | unknownCommand hstage hfirst hcomplete hpasses hvariadic hcommand hmore hroot =>
    obtain ⟨front', rfl, rfl⟩ := complete hfirst hcomplete
    exact .unknownCommand hstage rfl hcomplete (hpasses.withWords _) hvariadic hcommand
      (List.append_ne_nil_of_right_ne_nil _ hswapped) hroot

/-- What is left in front of the word in progress are complete words. -/
theorem Reaches.complete_of_front {memory after : Memory σ}
    (h : Reaches catalog memory walk turns last after) (hnames : walk.NamesNext)
    (hwords : walk.words = earlier ++ tail) (hlast : last.words = front ++ tail)
    (hearlier : ∀ word ∈ earlier, word.complete = true) :
    ∀ word ∈ front, word.complete = true := by
  obtain ⟨used, hused, -⟩ := h.words hnames
  rw [hwords, hlast, ← List.append_assoc] at hused
  have hsplit : earlier = used ++ front := List.append_cancel_right hused
  intro word hword
  exact hearlier word (by rw [hsplit]; exact List.mem_append_right used hword)

/-- A walk that has arrived has arrived with any other word in progress, and waits for the same
thing there: what a walk waits for is a matter of its stage. -/
theorem Arrives.swapCurrent {context : Context Nat} (h : walk.Arrives directory shell context)
    (more : List Word) (hwords : walk.words = front ++ typed :: later)
    (hfront : ∀ word ∈ front, word.complete = true) (hother : other.complete = false) :
    (walk.withWords (front ++ other :: more)).Arrives directory shell
      { context with current := some other } := by
  obtain ⟨hwaits, expected, hexpected, rfl⟩ := h
  -- A walk does not arrive in front of a complete word.
  have hnone : front = [] := by
    cases front with
    | nil => rfl
    | cons word front =>
      have hcomplete := hfront word List.mem_cons_self
      rw [hwaits word (by rw [hwords]; rfl)] at hcomplete
      cases hcomplete
  subst hnone
  refine ⟨?_, expected, hexpected, rfl⟩
  intro word hword
  cases hword
  exact hother

end Walk

/-! ## Places -/

namespace Catalog

/-- What is found with one word in progress is found with any other. Both outcomes are turned into
moves and an end, whose words are exchanged (`Reaches.swapEnd`). -/
theorem locate_swapCurrent (more : List Word) {place : Option (Context Nat)}
    (hearlier : ∀ word ∈ earlier, word.complete = true) (htyped : typed.complete = false)
    (hother : other.complete = false)
    (h : (catalog.locate directory shell (earlier ++ typed :: later) root).run memory =
      (.ok place, after)) :
    (catalog.locate directory shell (earlier ++ other :: more) root).run memory =
      (.ok (place.map fun context => { context with current := some other }), after) := by
  have hnames : Walk.NamesNext { words := earlier ++ typed :: later, node := root } :=
    Walk.namesNext_of_command rfl
  have hwaits : ∀ word ∈ (typed :: later).head?, word.complete = false := by
    intro word hword
    cases hword
    exact htyped
  have hswapped : other :: more ≠ [] := List.cons_ne_nil _ _
  -- Whether the walk was refused or has arrived, its end waits in front of the word in progress.
  cases place with
  | none =>
    obtain ⟨turns, last, middle, hreaches, hrefuses⟩ := locate_eq_none_iff.mp h
    obtain ⟨front, turns', hfront, hreaches'⟩ := hreaches.swapEnd hnames rfl hwaits hswapped
    refine locate_eq_none_iff.mpr ⟨turns', _, middle, hreaches', ?_⟩
    exact hrefuses.swapTail hfront hwaits (List.cons_ne_nil _ _) hswapped
  | some context =>
    obtain ⟨turns, hrun⟩ := locate_eq_some_iff.mp h
    obtain ⟨last, hreaches, harrives⟩ := Walk.reaches_of_run hrun
    obtain ⟨front, turns', hfront, hreaches'⟩ := hreaches.swapEnd hnames rfl hwaits hswapped
    have hcomplete := hreaches.complete_of_front hnames rfl hfront hearlier
    have harrives' := harrives.swapCurrent more hfront hcomplete hother
    exact locate_eq_some_iff.mpr ⟨turns', Walk.run_of_reaches hreaches' harrives'⟩

/-- **The place does not depend on the word being typed**, nor on what comes after it. With either
word in progress the line is refused, or leads to the same place, which has that word as its current
one; and the catalog remembers the same. The matcher itself neither completes nor guesses
(specification, § 4.3, tie-breaking policy): the half-typed word is the recommender's alone. -/
theorem locate_of_typing (catalog : Catalog σ) (directory : String) (shell : Shell)
    (memory : Memory σ) (root : CatalogNode) (earlier later later' : List Word)
    (typed typed' : Word) (hearlier : ∀ word ∈ earlier, word.complete = true)
    (htyped : typed.complete = false) (htyped' : typed'.complete = false) :
    ∃ (place : Option (Context Nat)) (after : Memory σ),
      (catalog.locate directory shell (earlier ++ [typed] ++ later) root).run memory =
        (.ok (place.map fun context => { context with current := some typed }), after) ∧
      (catalog.locate directory shell (earlier ++ [typed'] ++ later') root).run memory =
        (.ok (place.map fun context => { context with current := some typed' }), after) := by
  obtain ⟨⟨found, after⟩, hrun⟩ : ∃ result,
      (catalog.locate directory shell (earlier ++ typed :: later) root).run memory = result :=
    ⟨_, rfl⟩
  obtain ⟨place, rfl⟩ := exists_ok_of_locate hrun
  have hsame := locate_swapCurrent later hearlier htyped htyped hrun
  have hother := locate_swapCurrent later' hearlier htyped htyped' hrun
  rw [List.append_cons] at hsame hother
  exact ⟨place, after, hsame, hother⟩

/-- With the name of a deferred child in progress, or what looks like an option and
is none, followed by a complete word, the line stays where `-C dir` leads, and the
child is not loaded. -/
theorem locate_of_typing_deferred : ∃ (context : Context Nat) (after : Memory Unit),
    (∀ word ∈ ["-C", "dir"].map (Word.ofText · true), word.complete = true) ∧
    (Word.ofText "remote" false).complete = false ∧ (Word.ofText "-v" false).complete = false ∧
    (Walk.emptyCatalog.locate "/" .bash
      (["-C", "dir"].map (Word.ofText · true) ++ [.ofText "remote" false] ++ [])
      Walk.layeredRoot).run { world := () } =
        (.ok (some { context with current := some (.ofText "remote" false) }), after) ∧
    (Walk.emptyCatalog.locate "/" .bash
      (["-C", "dir"].map (Word.ofText · true) ++ [.ofText "-v" false] ++ [.ofText "add" true])
      Walk.layeredRoot).run { world := () } =
        (.ok (some { context with current := some (.ofText "-v" false) }), after) ∧
    context.node.names = ["git"] ∧ after.outcomes = [] := by
  have hearlier : ∀ word ∈ ["-C", "dir"].map (Word.ofText · true), word.complete = true := by decide
  obtain ⟨place, after, hchild, hoption⟩ := locate_of_typing Walk.emptyCatalog "/" .bash
    { world := () } Walk.layeredRoot (["-C", "dir"].map (Word.ofText · true)) []
    [.ofText "add" true] (.ofText "remote" false) (.ofText "-v" false) hearlier rfl rfl
  have hleads : (((Walk.emptyCatalog.locate "/" .bash
      (["-C", "dir"].map (Word.ofText · true) ++ [.ofText "remote" false] ++ [])
      Walk.layeredRoot).run { world := () }).1.toOption.join.any fun context =>
        context.node.names == ["git"]) = true := by decide +kernel
  have hforgets : ((Walk.emptyCatalog.locate "/" .bash
      (["-C", "dir"].map (Word.ofText · true) ++ [.ofText "remote" false] ++ [])
      Walk.layeredRoot).run { world := () }).2.outcomes.isEmpty = true := by decide +kernel
  rw [hchild] at hleads hforgets
  cases place with
  | none => cases hleads
  | some context =>
    exact ⟨context, after, hearlier, rfl, rfl, hchild, hoption, beq_iff_eq.mp hleads,
      List.isEmpty_iff.mp hforgets⟩

end Catalog

end CommandCompletion
