/-
Walks that differ in identities only.

While nothing outside changes and names agree, a lookup comes to the same
whatever is remembered, up to the identities of nodes (`plain_of_resolveChild`,
`plain_of_loadRoot`). So two walks over the same words from the same grammar go
the same way in any two faithful memories (`Reaches.alike`), though they may load
different things on the way and stand on nodes with different identities, and a
line leads to the same place (`Catalog.locate_alike`).
-/
import CommandCompletion.Proofs.Requests
import CommandCompletion.Proofs.Steadiness
import CommandCompletion.Proofs.Stopping

set_option autoImplicit false

namespace CommandCompletion

variable {σ : Type} {steady : σ → Prop}

/-! ## Lookups -/

namespace Catalog

variable {catalog : Catalog σ} {memory after other after' : Memory σ}
variable {parent parent' node : CatalogNode}
variable {word name : String} {outcome outcome' : Option CatalogNode} {world : σ}

/-- A node of a faithful memory is what it would be loaded as now: loaded just now, or remembered
from a load that would come to the same. -/
theorem Faithful.whole?_of_resolve (hsteady : catalog.Steady steady)
    (h : Faithful catalog steady memory) (hnode : Holds catalog memory node)
    (hname : node.answersTo word = true)
    (hrun : (catalog.resolve node word).run memory = (outcome, after)) (hworld : steady world) :
    ((catalog.whole? word node).run world).1 = outcome.map Node.plain := by
  cases hunknown : memory.outcomes.lookup node.id with
  | none => rw [hsteady.whole?_eq hworld h.world, run_whole?_of_resolve hrun hunknown]
  | some known =>
    by_cases hdeferred : node.loader = none
    · rw [resolve_of_whole hdeferred] at hrun
      cases hrun
      unfold Catalog.whole?
      rw [hdeferred]
      rfl
    · rw [resolve_of_known hdeferred hunknown] at hrun
      cases hrun
      have hresolved := Memory.definition_eq_resolved_iff.mpr ⟨hdeferred, hunknown⟩
      exact h.resolved node _ word world hnode hresolved hname hworld

/-- A command of a faithful memory is what it would be loaded as now. -/
theorem Faithful.commandGrammar?_of_loadRoot (hsteady : catalog.Steady steady)
    (h : Faithful catalog steady memory)
    (hrun : (catalog.loadRoot name).run memory = (outcome, after)) (hworld : steady world) :
    ((catalog.commandGrammar? name).run world).1 = outcome.map Node.plain := by
  cases hunknown : memory.roots.lookup name with
  | none =>
    have hnew := h.coherent.unknown (Nat.le_refl _)
    rw [hsteady.commandGrammar?_eq hworld h.world,
      run_commandGrammar?_of_loadRoot hrun hunknown hnew]
  | some root =>
    cases hlisted : catalog.rootNames.contains name with
    | false =>
      rw [loadRoot_of_unlisted hlisted] at hrun
      cases hrun
      rw [run_commandGrammar?_of_unlisted hlisted]
      rfl
    | true =>
      rw [loadRoot_of_known hlisted hunknown] at hrun
      cases hrun
      exact h.loaded name root world hunknown hworld

/-- The same child is found, with the same grammar. The parents agree up to identities, so the
children that answer do; what each comes to is the same as a load of it now. -/
theorem plain_of_resolveChild (hsteady : catalog.Steady steady)
    (h : Faithful catalog steady memory) (h' : Faithful catalog steady other)
    (hparent : Holds catalog memory parent) (hparent' : Holds catalog other parent')
    (hplain : parent.plain = parent'.plain)
    (hrun : (catalog.resolveChild parent word).run memory = (outcome, after))
    (hrun' : (catalog.resolveChild parent' word).run other = (outcome', after')) :
    outcome.map Node.plain = outcome'.map Node.plain := by
  have hfound : (parent.findChild? word).map Node.plain = (parent'.findChild? word).map Node.plain := by
    rw [← Node.findChild?_plain, ← Node.findChild?_plain, hplain]
  unfold resolveChild at hrun hrun'
  cases hchild : parent.findChild? word with
  | none =>
    have hnone : parent'.findChild? word = none := by
      rw [hchild, Option.map_none, eq_comm, Option.map_eq_none_iff] at hfound
      exact hfound
    rw [hchild] at hrun
    rw [hnone] at hrun'
    cases hrun
    cases hrun'
    rfl
  | some child =>
    rw [hchild, Option.map_some, eq_comm, Option.map_eq_some_iff] at hfound
    obtain ⟨child', hchild', hsame⟩ := hfound
    rw [hchild] at hrun
    rw [hchild'] at hrun'
    have hname := (Node.findChild?_eq_some hchild).2
    have hname' := (Node.findChild?_eq_some hchild').2
    have hwhole := h.whole?_of_resolve hsteady (hparent.child hchild) hname hrun h.world
    have hwhole' := h'.whole?_of_resolve hsteady (hparent'.child hchild') hname' hrun' h.world
    rw [← hwhole, ← hwhole', ← whole?_plain child, ← whole?_plain child', hsame]

/-- The same command is loaded, with the same grammar. -/
theorem plain_of_loadRoot (hsteady : catalog.Steady steady)
    (h : Faithful catalog steady memory) (h' : Faithful catalog steady other)
    (hrun : (catalog.loadRoot name).run memory = (outcome, after))
    (hrun' : (catalog.loadRoot name).run other = (outcome', after')) :
    outcome.map Node.plain = outcome'.map Node.plain := by
  rw [← h.commandGrammar?_of_loadRoot hsteady hrun h.world,
    ← h'.commandGrammar?_of_loadRoot hsteady hrun' h.world]

end Catalog

/-! ## Walks -/

/-- The place without identities. -/
def Context.plain {ι : Type} (context : Context ι) : Context Unit :=
  { context with node := context.node.plain }

namespace Walk

/-- Two walks that differ in identities only. Inherited options and accepted words carry none, so
they are equal and not merely alike. -/
structure Alike (a b : Walk) : Prop where
  words : a.words = b.words
  node : a.node.plain = b.node.plain
  inherited : a.inherited = b.inherited
  accepted : a.accepted = b.accepted
  stage : a.stage = b.stage

/-- Two moves that differ in identities only. -/
inductive AlikeMoves : Move → Move → Prop where
  | same (move : Move) : AlikeMoves move move
  | enter {child child' : CatalogNode} (h : child.plain = child'.plain) :
      AlikeMoves (.enter child) (.enter child')
  | delegate {root root' : CatalogNode} (h : root.plain = root'.plain) :
      AlikeMoves (.delegate root) (.delegate root')

variable {catalog : Catalog σ} {directory : String} {shell : Shell}
variable {memory middle after other : Memory σ} {a b walk last : Walk} {move move' : Move}
variable {word : Word} {rest : List Word} {turns : List (Walk × Move)}

namespace Alike

theorem options (h : Alike a b) : a.node.options = b.node.options := by
  rw [← Node.options_plain, h.node, Node.options_plain]

theorem args (h : Alike a b) : a.node.args = b.node.args := by
  rw [← Node.args_plain, h.node, Node.args_plain]

theorem isOpen (h : Alike a b) : a.isOpen = b.isOpen := by
  unfold Walk.isOpen
  rw [h.stage]

theorem persists (h : Alike a b) (option : CommandOption) :
    a.persists option = b.persists option := by
  unfold Walk.persists
  rw [h.inherited]

theorem take (h : Alike a b) (persist : Bool) : Alike (a.take persist) (b.take persist) := by
  obtain ⟨words, node, inherited, accepted, stage⟩ := a
  obtain ⟨words', node', inherited', accepted', stage'⟩ := b
  obtain ⟨hwords, hnode, hinherited, haccepted, hstage⟩ := h
  dsimp only at hwords hnode hinherited haccepted hstage
  subst hwords hinherited haccepted hstage
  cases words with
  | nil => exact ⟨rfl, hnode, rfl, rfl, rfl⟩
  | cons => exact ⟨rfl, hnode, rfl, rfl, rfl⟩

/-- Alike moves keep walks alike. The cases are the moves; where a node is stepped on it is the
moves that have to be alike. -/
theorem perform (h : Alike a b) (hmoves : AlikeMoves move move') :
    Alike (a.perform move) (b.perform move') := by
  cases hmoves with
  | enter hchild =>
    have htaken := h.take false
    refine ⟨congrArg List.tail h.words, hchild, ?_, ?_, rfl⟩
    · simp only [Walk.perform, h.inherited, h.options]
    · simp only [Walk.perform, htaken.accepted]
  | delegate hroot => exact ⟨congrArg List.tail h.words, hroot, rfl, rfl, rfl⟩
  | same =>
    cases move with
    | beginArguments =>
      exact ⟨h.words, h.node, h.inherited, h.accepted, by simp only [Walk.perform, h.args]⟩
    | endArguments | beginOption => exact ⟨h.words, h.node, h.inherited, h.accepted, rfl⟩
    | takeOption option persist | takeValue _ _ _ persist =>
      have htaken := h.take persist
      exact ⟨htaken.words, htaken.node, htaken.inherited, htaken.accepted, rfl⟩
    | enter child =>
      have htaken := h.take false
      refine ⟨congrArg List.tail h.words, rfl, ?_, ?_, rfl⟩
      · simp only [Walk.perform, h.inherited, h.options]
      · simp only [Walk.perform, htaken.accepted]
    | delegate => exact ⟨congrArg List.tail h.words, rfl, rfl, rfl, rfl⟩

end Alike

section Steady

variable (hsteady : catalog.Steady steady)

include hsteady

theorem Passes.alike (h : Passes catalog memory a word after)
    (hfaithful : catalog.Faithful steady memory) (hfaithful' : catalog.Faithful steady other)
    (ha : catalog.Holds memory a.node) (hb : catalog.Holds other b.node) (halike : Alike a b) :
    ∃ after', Passes catalog other b word after' := by
  cases h with
  | shut hshut => exact ⟨other, .shut (by rw [← halike.isOpen]; exact hshut)⟩
  | missed hopen hplain hmissed =>
    obtain ⟨⟨outcome, after'⟩, hrun⟩ : ∃ result,
        (catalog.resolveChild b.node word.text).run other = result := ⟨_, rfl⟩
    have hsame := Catalog.plain_of_resolveChild hsteady hfaithful hfaithful' ha hb halike.node
      hmissed hrun
    cases outcome with
    | none => exact ⟨after', .missed (by rw [← halike.isOpen]; exact hopen) hplain hrun⟩
    | some child => cases hsame

variable (hagree : catalog.AlwaysAgree steady)

include hagree

theorem Asks.faithful (h : Asks catalog memory walk after)
    (hfaithful : catalog.Faithful steady memory) (hnode : catalog.Holds memory walk.node) :
    catalog.Faithful steady after :=
  hfaithful.loads hsteady hagree (h.loads hnode)

/-- **What a walk does, an alike walk does too**, whatever is remembered. One case for each rule:
its questions about the walk have the same answers in both, and its lookups come to the same grammar
in any two faithful memories. -/
theorem Goes.alike (h : Goes catalog memory a move after)
    (hfaithful : catalog.Faithful steady memory) (hfaithful' : catalog.Faithful steady other)
    (ha : catalog.Holds memory a.node) (hb : catalog.Holds other b.node) (halike : Alike a b) :
    ∃ move' after', Goes catalog other b move' after' ∧ AlikeMoves move move' := by
  -- The move is the same but where a child or a command is looked up: what is found
  -- has the same grammar and may have other identities.
  cases h with
  | beginOption hwords hcomplete hopen hoption hfound =>
    rw [halike.words] at hwords
    rw [halike.isOpen] at hopen
    rw [halike.inherited, halike.options] at hfound
    exact ⟨_, _, .beginOption hwords hcomplete hopen hoption hfound, .same _⟩
  | @enter word _ _ _ hwords hcomplete hopen hplain hchild =>
    rw [halike.words] at hwords
    rw [halike.isOpen] at hopen
    obtain ⟨⟨outcome, after'⟩, hrun⟩ : ∃ result,
        (catalog.resolveChild b.node word.text).run other = result := ⟨_, rfl⟩
    have hsame := Catalog.plain_of_resolveChild hsteady hfaithful hfaithful' ha hb halike.node
      hchild hrun
    cases outcome with
    | none => cases hsame
    | some child' =>
      exact ⟨_, _, .enter hwords hcomplete hopen hplain hrun, .enter (Option.some.inj hsame)⟩
  | beginArguments hstage hwords hcomplete hpasses hargs =>
    obtain ⟨after', hpasses'⟩ := hpasses.alike hsteady hfaithful hfaithful' ha hb halike
    rw [halike.stage] at hstage
    rw [halike.words] at hwords
    rw [halike.args] at hargs
    exact ⟨_, _, .beginArguments hstage hwords hcomplete hpasses' hargs, .same _⟩
  | endArguments hstage =>
    rw [halike.stage] at hstage
    exact ⟨_, _, .endArguments hstage, .same _⟩
  | takeOption hstage hwords =>
    rw [halike.stage] at hstage
    rw [halike.words] at hwords
    rw [halike.persists]
    exact ⟨_, _, .takeOption hstage hwords, .same _⟩
  | repeatSlot hstage hwords hcomplete hpasses hvariadic =>
    obtain ⟨after', hpasses'⟩ := hpasses.alike hsteady hfaithful hfaithful' ha hb halike
    rw [halike.stage] at hstage
    rw [halike.words] at hwords
    exact ⟨_, _, .repeatSlot hstage hwords hcomplete hpasses' hvariadic, .same _⟩
  | fillSlot hstage hwords hcomplete hpasses hvariadic hcommand =>
    obtain ⟨after', hpasses'⟩ := hpasses.alike hsteady hfaithful hfaithful' ha hb halike
    rw [halike.stage] at hstage
    rw [halike.words] at hwords
    exact ⟨_, _, .fillSlot hstage hwords hcomplete hpasses' hvariadic hcommand, .same _⟩
  | @delegate word _ _ _ _ _ _ root middle _ hstage hwords hcomplete hpasses hvariadic hcommand
      hmore hroot =>
    obtain ⟨middle', hpasses'⟩ := hpasses.alike hsteady hfaithful hfaithful' ha hb halike
    -- The command is looked up in the memories that looking for a child left.
    have hmiddle := (hpasses.asks hwords hcomplete).faithful hsteady hagree hfaithful ha
    rw [halike.stage] at hstage
    rw [halike.words] at hwords
    have hmiddle' := (hpasses'.asks hwords hcomplete).faithful hsteady hagree hfaithful' hb
    obtain ⟨⟨outcome, after'⟩, hrun⟩ : ∃ result,
        (catalog.loadRoot word.text).run middle' = result := ⟨_, rfl⟩
    have hsame := Catalog.plain_of_loadRoot hsteady hmiddle hmiddle' hroot hrun
    cases outcome with
    | none => cases hsame
    | some root' =>
      exact ⟨_, _, .delegate hstage hwords hcomplete hpasses' hvariadic hcommand hmore hrun,
        .delegate (Option.some.inj hsame)⟩

/-- **Alike walks go the same way**, whatever is remembered. By induction on the turns of one of
them, with the other walk and its memory general. -/
theorem Reaches.alike (h : Reaches catalog memory a turns last after)
    (hfaithful : catalog.Faithful steady memory) (hfaithful' : catalog.Faithful steady other)
    (ha : catalog.Holds memory a.node) (hb : catalog.Holds other b.node) (halike : Alike a b) :
    ∃ turns' last' after', Reaches catalog other b turns' last' after' ∧ Alike last last' := by
  -- Along the walk both memories grow, each by what it lacked; both stay faithful.
  induction h generalizing other b with
  | here => exact ⟨_, _, _, .here other b, halike⟩
  | go hgoes _ ih =>
    obtain ⟨move', middle', hgoes', hmoves⟩ :=
      hgoes.alike hsteady hagree hfaithful hfaithful' ha hb halike
    have hmiddle := hgoes.asks.faithful hsteady hagree hfaithful ha
    have hmiddle' := hgoes'.asks.faithful hsteady hagree hfaithful' hb
    obtain ⟨turns', last', after', hreaches, hlast⟩ :=
      ih hmiddle hmiddle' (hgoes.holds ha) (hgoes'.holds hb) (halike.perform hmoves)
    exact ⟨_, last', after', .go hgoes' hreaches, hlast⟩

end Steady

/-- Alike walks arrive at the same place. -/
theorem Arrives.alike {context : Context Nat} (h : a.Arrives directory shell context)
    (halike : Alike a b) :
    ∃ context', b.Arrives directory shell context' ∧ context.plain = context'.plain := by
  obtain ⟨hwaits, expected, hexpected, rfl⟩ := h
  have hexpected' : b.expected? = some expected := by
    rw [← hexpected]
    unfold expected?
    rw [halike.stage]
  refine ⟨b.context directory shell expected, ⟨?_, expected, hexpected', rfl⟩, ?_⟩
  · rw [← halike.words]
    exact hwaits
  · simp only [Context.plain, context, halike.node, halike.inherited, halike.words,
      halike.accepted]

end Walk

/-! ## Places and suggestions -/

namespace Catalog

variable {catalog : Catalog σ} {memory after other after' : Memory σ} {root root' : CatalogNode}
variable {directory : String} {shell : Shell} {words : List Word}

section Steady

variable (hsteady : catalog.Steady steady) (hagree : catalog.AlwaysAgree steady)

include hsteady hagree

/-- A line that leads to a place in one faithful memory leads to the same in any other, up to the
identity of the node. -/
theorem locate_some_alike {context : Context Nat} (h : Faithful catalog steady memory)
    (h' : Faithful catalog steady other) (hroot : Holds catalog memory root)
    (hroot' : Holds catalog other root') (hplain : root.plain = root'.plain)
    (hrun : (catalog.locate directory shell words root).run memory = (.ok (some context), after)) :
    ∃ context' after', (catalog.locate directory shell words root').run other =
      (.ok (some context'), after') ∧ context.plain = context'.plain := by
  obtain ⟨turns, hturns⟩ := locate_eq_some_iff.mp hrun
  obtain ⟨last, hreaches, harrives⟩ := Walk.reaches_of_run hturns
  have halike : Walk.Alike { words := words, node := root } { words := words, node := root' } :=
    ⟨rfl, hplain, rfl, rfl, rfl⟩
  -- The other walk is not given: it is made up turn by turn, and so arrives.
  obtain ⟨turns', last', after', hreaches', hlast⟩ :=
    hreaches.alike hsteady hagree h h' hroot hroot' halike
  obtain ⟨context', harrives', hsame⟩ := harrives.alike hlast
  exact ⟨context', after',
    locate_eq_some_iff.mpr ⟨turns', Walk.run_of_reaches hreaches' harrives'⟩, hsame⟩

/-- **A line leads to the same place**, whatever is remembered. A walk always arrives or refuses
(`exists_ok_of_locate`), so it is enough that arriving in one memory is arriving in the other, both
ways round. -/
theorem locate_alike {place place' : Except Failure (Option (Context Nat))}
    (h : Faithful catalog steady memory) (h' : Faithful catalog steady other)
    (hroot : Holds catalog memory root) (hroot' : Holds catalog other root')
    (hplain : root.plain = root'.plain)
    (hrun : (catalog.locate directory shell words root).run memory = (place, after))
    (hrun' : (catalog.locate directory shell words root').run other = (place', after')) :
    ∃ context? context?', place = .ok context? ∧ place' = .ok context?' ∧
      context?.map Context.plain = context?'.map Context.plain := by
  obtain ⟨context?, rfl⟩ := exists_ok_of_locate hrun
  obtain ⟨context?', rfl⟩ := exists_ok_of_locate hrun'
  refine ⟨context?, context?', rfl, rfl, ?_⟩
  cases context? with
  | some context =>
    obtain ⟨found, _, hfound, hsame⟩ :=
      locate_some_alike hsteady hagree h h' hroot hroot' hplain hrun
    rw [hrun'] at hfound
    cases hfound
    exact congrArg some hsame
  | none =>
    cases context?' with
    | none => rfl
    | some context' =>
      -- A walk that arrives in one memory arrives in the other.
      obtain ⟨found, _, hfound, -⟩ :=
        locate_some_alike hsteady hagree h' h hroot' hroot hplain.symm hrun'
      rw [hrun] at hfound
      cases hfound

end Steady

end Catalog

end CommandCompletion
