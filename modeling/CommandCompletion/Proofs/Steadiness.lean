/-
What is loaded while nothing outside changes.

What lies outside is `Steady` if documents stay as they are and every generator
always answers the same, whatever the word. Then each thing that can be loaded
always comes out the same (`Steady.whole?_eq`, `Steady.commandGrammar?_eq`), with
one exception: of several locations that a generator answers with, the one named
like the typed word is meant, so a node with several names may come out different
for different names. `AliasesAgree` says that it does not.

While that is so for all that is handed out, what a catalog remembers is what it
would load now, for whichever name (`Faithful`), and every load keeps it so
(`Faithful.loads`).
-/
import CommandCompletion.Engine
import CommandCompletion.Proofs.Loads

set_option autoImplicit false

namespace CommandCompletion

variable {σ α β : Type} {steady : σ → Prop}

/-! ## Answers that stay the same -/

/-- Whenever the outside is steady, the action gives this answer and leaves the outside steady. The
two are said together so that actions can be put one after the other (`bind`). -/
def Constant (steady : σ → Prop) (action : StateM σ α) (answer : α) : Prop :=
  ∀ world, steady world → (action.run world).1 = answer ∧ steady (action.run world).2

namespace Constant

variable {action : StateM σ α} {next : α → StateM σ β} {a : α} {b : β}

theorem pure (a : α) : Constant steady (Pure.pure a) a := fun _ hworld => ⟨rfl, hworld⟩

theorem bind (h : Constant steady action a) (h' : Constant steady (next a) b) :
    Constant steady (action >>= next) b := by
  intro world hworld
  obtain ⟨hanswer, hafter⟩ := h world hworld
  have hnext := h' _ hafter
  rw [← hanswer] at hnext
  exact hnext

theorem map (h : Constant steady action a) (f : α → β) : Constant steady (f <$> action) (f a) := by
  intro world hworld
  obtain ⟨hanswer, hafter⟩ := h world hworld
  exact ⟨congrArg f hanswer, hafter⟩

end Constant

namespace Catalog

/-! ## A steady outside -/

/-- The documents stay as they are, and every generator always gives the same answer, whatever the
word. A generator may still change the outside, for instance record that it was asked; what may not
change is what matters to answers. -/
structure Steady (catalog : Catalog σ) (steady : σ → Prop) : Prop where
  source : ∀ key, ∃ answer, Constant steady (catalog.source.load key) answer
  locator : ∀ path name, ∃ answer, Constant steady (catalog.locator.load path name) answer
  generator : ∀ name generator, catalog.generators.lookup name = some generator →
    ∃ answer, ∀ word, Constant steady (generator.generate word catalog.probe) answer

variable {catalog : Catalog σ} {ι : Type}

namespace Steady

theorem loadLocation (h : catalog.Steady steady) (location : Location) :
    ∃ answer, Constant steady (catalog.loadLocation location) answer := by
  cases location with
  | catalogEntry name => exact h.source name
  | localFile path name => exact h.locator path name

theorem loadLocations (h : catalog.Steady steady) (locations : List Location) :
    ∃ grammars, Constant steady (catalog.loadLocations locations) grammars := by
  induction locations with
  | nil => exact ⟨[], .pure []⟩
  | cons location locations ih =>
    obtain ⟨answer, hanswer⟩ := h.loadLocation location
    obtain ⟨rest, hrest⟩ := ih
    exact ⟨_, hanswer.bind (hrest.bind (.pure _))⟩

theorem generated? (h : catalog.Steady steady) (word : String) (answer : Generated) :
    ∃ grammar?, Constant steady (catalog.generated? word answer) grammar? := by
  cases answer with
  | fragment fragment => exact ⟨_, .pure (some fragment)⟩
  | location location =>
    obtain ⟨answer, hanswer⟩ := h.loadLocation location
    exact ⟨_, hanswer.bind (.pure _)⟩
  | locations locations =>
    obtain ⟨grammars, hgrammars⟩ := h.loadLocations locations
    exact ⟨_, hgrammars.bind (.pure _)⟩

theorem generate? (h : catalog.Steady steady) (name word : String) :
    ∃ grammar?, Constant steady (catalog.generate? name word) grammar? := by
  unfold Catalog.generate? Catalog.generator?
  cases hlookup : catalog.generators.lookup name with
  | none => exact ⟨none, .pure none⟩
  | some generator =>
    obtain ⟨answer, hanswer⟩ := h.generator name generator hlookup
    cases answer with
    | error failure => exact ⟨none, (hanswer word).bind (.pure none)⟩
    | ok generated =>
      obtain ⟨grammar?, hgrammar⟩ := h.generated? word generated
      exact ⟨grammar?, (hanswer word).bind hgrammar⟩

theorem fragment? (h : catalog.Steady steady) (word : String) (loader : Loader (Node ι)) :
    ∃ grammar?, Constant steady (catalog.fragment? word loader) grammar? := by
  cases loader with
  | inline fragment => exact ⟨_, .pure _⟩
  | reference key =>
    obtain ⟨answer, hanswer⟩ := h.source key
    exact ⟨_, hanswer.map supplied?⟩
  | generator name => exact h.generate? name word

theorem whole? (h : catalog.Steady steady) (word : String) (node : Node ι) :
    ∃ grammar?, Constant steady (catalog.whole? word node) grammar? := by
  unfold Catalog.whole?
  cases node.loader with
  | none => exact ⟨_, .pure _⟩
  | some loader =>
    obtain ⟨grammar?, hgrammar⟩ := h.fragment? word loader
    exact ⟨_, hgrammar.map _⟩

theorem commandGrammar? (h : catalog.Steady steady) (name : String) :
    ∃ grammar?, Constant steady (catalog.commandGrammar? name) grammar? := by
  unfold Catalog.commandGrammar?
  cases catalog.rootNames.contains name with
  | false => exact ⟨none, .pure none⟩
  | true =>
    obtain ⟨answer, hanswer⟩ := h.source name
    cases hsupplied : supplied? answer with
    | none =>
      refine ⟨none, hanswer.bind ?_⟩
      rw [hsupplied]
      exact .pure none
    | some grammar =>
      obtain ⟨grammar?, hgrammar⟩ := h.whole? name grammar
      refine ⟨grammar?, hanswer.bind ?_⟩
      rw [hsupplied]
      exact hgrammar

variable {world other : σ}

/-- A node is loaded alike whenever it is loaded: each loader is put together from questions that
have constant answers. -/
theorem whole?_eq (h : catalog.Steady steady) (hworld : steady world) (hother : steady other)
    (word : String) (node : Node ι) :
    ((catalog.whole? word node).run world).1 = ((catalog.whole? word node).run other).1 := by
  obtain ⟨grammar?, hgrammar⟩ := h.whole? word node
  rw [(hgrammar world hworld).1, (hgrammar other hother).1]

/-- A command is loaded alike whenever it is loaded. -/
theorem commandGrammar?_eq (h : catalog.Steady steady) (hworld : steady world)
    (hother : steady other) (name : String) :
    ((catalog.commandGrammar? name).run world).1 = ((catalog.commandGrammar? name).run other).1 := by
  obtain ⟨grammar?, hgrammar⟩ := h.commandGrammar? name
  rw [(hgrammar world hworld).1, (hgrammar other hother).1]

end Steady

/-! ## Nodes with several names -/

/-- The node comes out the same for all its names. The typed word takes part in loading in one place
only, where a generator answers with several locations (specification, § E2.3). -/
def AliasesAgree (catalog : Catalog σ) (steady : σ → Prop) (node : Grammar) : Prop :=
  ∀ word other, node.answersTo word = true → node.answersTo other = true →
    ∀ world, steady world →
      ((catalog.whole? word node).run world).1 = ((catalog.whole? other node).run world).1

/-- **Names must agree.** What a node came to for the name that was used first is what it comes to
for any other name, so a node that was resolved before is as good as one that was not only if both
names yield the same. Replay gives the left side, loading without memory the right one. -/
theorem resolve_again_iff {memory : Memory σ} {node : CatalogNode} {loader : Loader CatalogNode}
    (hunresolved : memory.definition node = .unresolved loader) (word other : String) :
    ((catalog.resolve node other).run ((catalog.resolve node word).run memory).2).1.map Node.plain =
        ((catalog.resolve node other).run memory).1.map Node.plain ↔
      ((catalog.whole? word node).run memory.world).1 =
        ((catalog.whole? other node).run memory.world).1 := by
  have hunknown := Memory.lookup_eq_none_of_unresolved hunresolved
  obtain ⟨⟨first, after⟩, hfirst⟩ : ∃ result, (catalog.resolve node word).run memory = result :=
    ⟨_, rfl⟩
  obtain ⟨⟨fresh, _⟩, hfresh⟩ : ∃ result, (catalog.resolve node other).run memory = result :=
    ⟨_, rfl⟩
  have hagain := resolve_replay hfirst (.refl after) catalog other
  rw [run_whole?_of_resolve hfirst hunknown, run_whole?_of_resolve hfresh hunknown, hfirst, hfresh,
    hagain]

/-- With one name there is nothing to disagree about. -/
theorem aliasesAgree_of_name {node : Grammar} {name : String} (h : node.names = [name]) :
    AliasesAgree catalog steady node := by
  intro word other hword hother world _
  have hsame : ∀ word, node.answersTo word = true → word = name := by
    intro word hword
    simpa [Node.answersTo, h] using hword
  rw [hsame word hword, hsame other hother]

/-- Only a generator is told the word. -/
theorem aliasesAgree_of_loader {node : Grammar} (h : ∀ name, node.loader ≠ some (.generator name)) :
    AliasesAgree catalog steady node := by
  intro word other _ _ world _
  unfold Catalog.whole?
  cases hloader : node.loader with
  | none => rfl
  | some loader =>
    cases loader with
    | inline | reference => rfl
    | generator name => exact absurd hloader (h name)

/-- And only if it answers with several locations does the word matter. -/
theorem aliasesAgree_of_answer (hsteady : catalog.Steady steady) {node : Grammar} {name : String}
    {generator : Generator σ} {answer : Except Failure Generated}
    (hloader : node.loader = some (.generator name))
    (hlookup : catalog.generators.lookup name = some generator)
    (hanswer : ∀ word, Constant steady (generator.generate word catalog.probe) answer)
    (hsingle : ∀ locations, answer ≠ .ok (.locations locations)) :
    AliasesAgree catalog steady node := by
  have hgenerator : catalog.generator? name = .ok generator := by
    simp only [generator?, hlookup]
  have hsame : ∃ grammar?, ∀ word, Constant steady (catalog.generate? name word) grammar? := by
    unfold Catalog.generate?
    rw [hgenerator]
    dsimp only
    cases answer with
    | error failure => exact ⟨none, fun word => (hanswer word).bind (.pure none)⟩
    | ok generated =>
      cases generated with
      | fragment fragment => exact ⟨some fragment, fun word => (hanswer word).bind (.pure _)⟩
      | location location =>
        obtain ⟨loaded, hloaded⟩ := hsteady.loadLocation location
        exact ⟨supplied? loaded, fun word => (hanswer word).bind (hloaded.bind (.pure _))⟩
      | locations locations => exact absurd rfl (hsingle locations)
  obtain ⟨grammar?, hgrammar⟩ := hsame
  intro word other _ _ world hworld
  have whole : ∀ word, ((catalog.whole? word node).run world).1 =
      grammar?.map node.plain.overlay := by
    intro word
    unfold Catalog.whole?
    rw [hloader]
    exact (((hgrammar word).map (Option.map node.plain.overlay)) world hworld).1
  rw [whole word, whole other]

/-- No generator, no answer. -/
theorem aliasesAgree_of_unknown {node : Grammar} {name : String}
    (hloader : node.loader = some (.generator name))
    (hlookup : catalog.generators.lookup name = none) : AliasesAgree catalog steady node := by
  intro word other _ _ world _
  unfold Catalog.whole?
  rw [hloader]
  simp only [Catalog.fragment?, Catalog.generate?, generator?, hlookup]

/-- A grammar that comes from outside. -/
def HandsOut (catalog : Catalog σ) (steady : σ → Prop) (grammar : Grammar) : Prop :=
  ∃ world, steady world ∧
    ((∃ key, supplied? ((catalog.loadReference key).run world).1 = some grammar) ∨
      ∃ name word, ((catalog.generate? name word).run world).1 = some grammar)

/-- In all that is handed out, every child comes out the same for all its names. -/
def AlwaysAgree (catalog : Catalog σ) (steady : σ → Prop) : Prop :=
  ∀ grammar, HandsOut catalog steady grammar → ∀ parent ∈ grammar.parts,
    ∀ child ∈ parent.children, AliasesAgree catalog steady child

/-- It does if no generator answers with several locations. -/
theorem alwaysAgree_of_answers (hsteady : catalog.Steady steady)
    (hsingle : ∀ name generator, catalog.generators.lookup name = some generator →
      ∃ answer, (∀ word, Constant steady (generator.generate word catalog.probe) answer) ∧
        ∀ locations, answer ≠ .ok (.locations locations)) : AlwaysAgree catalog steady := by
  intro grammar _ parent _ child _
  by_cases hloader : ∃ name, child.loader = some (.generator name)
  · obtain ⟨name, hloader⟩ := hloader
    cases hlookup : catalog.generators.lookup name with
    | none => exact aliasesAgree_of_unknown hloader hlookup
    | some generator =>
      obtain ⟨answer, hanswer, hone⟩ := hsingle name generator hlookup
      exact aliasesAgree_of_answer hsteady hloader hlookup hanswer hone
  · exact aliasesAgree_of_loader fun name hname => hloader ⟨name, hname⟩

/-! ## What is remembered is what would be loaded -/

/-- What is remembered is what would be loaded now: for a node under any of its names, for a command
under its own. The invariant of every use while nothing outside changes. -/
structure Faithful (catalog : Catalog σ) (steady : σ → Prop) (memory : Memory σ) : Prop where
  world : steady memory.world
  coherent : Coherent catalog memory
  agree : ∀ parent, Holds catalog memory parent → ∀ child ∈ parent.children,
    AliasesAgree catalog steady child.plain
  resolved : ∀ node outcome word world, Holds catalog memory node →
    memory.definition node = .resolved outcome → node.answersTo word = true → steady world →
      ((catalog.whole? word node).run world).1 = outcome.map Node.plain
  loaded : ∀ name root world, memory.roots.lookup name = some root → steady world →
    ((catalog.commandGrammar? name).run world).1 = some root.plain

variable {memory after : Memory σ} {node parent a : CatalogNode} {word name : String}
variable {outcome : Option CatalogNode}

theorem handsOut_of_fragment? {loader : Loader CatalogNode} {grammar : Grammar} {world : σ}
    (hworld : steady world) (habsent : ∀ fragment, loader ≠ .inline fragment)
    (hasked : ((catalog.fragment? word loader).run world).1 = some grammar) :
    HandsOut catalog steady grammar := by
  cases loader with
  | inline fragment => exact absurd rfl (habsent fragment)
  | reference key => exact ⟨world, hworld, .inl ⟨key, hasked⟩⟩
  | generator name => exact ⟨world, hworld, .inr ⟨name, word, hasked⟩⟩

/-- The nodes of a grammar are the same before and after they get identities. -/
theorem plain_mem_parts {grammar : Grammar} {next : Nat}
    (ha : a ∈ (grammar.number next).1.parts) : a.plain ∈ grammar.parts := by
  have hplain : a.plain ∈ (grammar.number next).1.plain.parts := by
    rw [Node.parts_plain]
    exact List.mem_map_of_mem ha
  rw [(Node.numbered grammar next).plain] at hplain
  exact hplain

/-- The same is known of the nodes of a grammar once they have identities. -/
theorem HandsOut.agree {grammar : Grammar} {next : Nat} (hout : HandsOut catalog steady grammar)
    (hagree : AlwaysAgree catalog steady) (hparent : parent ∈ (grammar.number next).1.parts) :
    ∀ child ∈ parent.children, AliasesAgree catalog steady child.plain := by
  intro child hchild
  refine hagree grammar hout parent.plain (plain_mem_parts hparent) child.plain ?_
  rw [Node.children_plain]
  exact List.mem_map_of_mem hchild

theorem agree_of_resolve (hagree : AlwaysAgree catalog steady) (hworld : steady memory.world)
    (hheld : ∀ parent, Holds catalog memory parent → ∀ child ∈ parent.children,
      AliasesAgree catalog steady child.plain)
    (hnode : ∀ parent ∈ node.parts, ∀ child ∈ parent.children,
      AliasesAgree catalog steady child.plain)
    (hrun : (catalog.resolve node word).run memory = (outcome, after))
    (hwithin : Within outcome parent) (hchild : a ∈ parent.children) :
    AliasesAgree catalog steady a.plain := by
  cases resolves_of_resolve hrun with
  | whole =>
    obtain ⟨_, ⟨rfl⟩, hmem⟩ := hwithin
    exact hnode parent hmem a hchild
  | known _ hknown =>
    obtain ⟨tree, rfl, hmem⟩ := hwithin
    exact hheld parent ⟨tree, .outcome hknown, hmem⟩ a hchild
  | loaded hloader _ hfragment =>
    have hfinds := findsFragment_of_loadFragment hfragment
    obtain ⟨origin, horigin, hold | ⟨grammar, habsent, hasked, hnew⟩⟩ :=
      parent_of_resolves hloader hfinds hwithin hchild
    · exact hnode origin hold a horigin
    · exact (handsOut_of_fragment? hworld habsent hasked).agree hagree hnew a horigin

/-- Resolving leaves the outside steady. -/
theorem steady_of_resolve (hsteady : catalog.Steady steady) (hworld : steady memory.world)
    (hrun : (catalog.resolve node word).run memory = (outcome, after)) : steady after.world := by
  have hresolves := resolves_of_resolve hrun
  cases hresolves with
  | whole | known => exact hworld
  | loaded _ hunknown _ =>
    obtain ⟨grammar?, hgrammar⟩ := hsteady.whole? word node
    have hafter := (hgrammar _ hworld).2
    rw [run_whole?_of_resolve hrun hunknown] at hafter
    exact hafter

/-- What came of a child under the name it was resolved by would come of it under any other. Other
nodes are not touched by the load; for this one the names agree. -/
theorem resolved_of_resolve (hsteady : catalog.Steady steady) (h : Faithful catalog steady memory)
    (hparent : Holds catalog memory parent) (hchild : parent.findChild? word = some node)
    (hrun : (catalog.resolve node word).run memory = (outcome, after))
    {came : Option CatalogNode} {other : String} {world : σ} (ha : Holds catalog after a)
    (hresolved : after.definition a = .resolved came) (hother : a.answersTo other = true)
    (hworld : steady world) :
    ((catalog.whole? other a).run world).1 = came.map Node.plain := by
  obtain ⟨hmem, hname⟩ := Node.findChild?_eq_some hchild
  have hnode := hparent.child hchild
  have hgrows := grows_of_resolve h.coherent hnode hrun
  rcases hgrows.extended.definition a with hsame | ⟨loader, _, hbefore, -⟩
  · rw [hsame] at hresolved
    have hheld := hgrows.holds_of_resolved h.coherent ha hresolved
    exact h.resolved a came other world hheld hresolved hother hworld
  · -- Something was learnt about this node, so it is the one that was resolved.
    obtain rfl : a = node := by
      by_contra hne
      rw [definition_of_resolve h.coherent hnode hrun ha hne, hbefore] at hresolved
      cases hresolved
    obtain ⟨hdeferred, hknown⟩ := Memory.definition_eq_resolved_iff.mp hresolved
    have hunknown := Memory.lookup_eq_none_of_unresolved hbefore
    have hwhole := run_whole?_of_resolve hrun hunknown
    obtain rfl : outcome = came := by
      rcases settled_of_resolve hrun with ⟨hwhole, -⟩ | ⟨-, hsettled⟩
      · exact absurd hwhole hdeferred
      · rw [hknown] at hsettled
        exact (Option.some.inj hsettled).symm
    -- It ran for `word`; its names agree, so it would have come to this for `other`.
    have hagreed := h.agree parent hparent a hmem other word
      (by rw [Node.answersTo_plain]; exact hother) (by rw [Node.answersTo_plain]; exact hname)
      world hworld
    rw [whole?_plain, whole?_plain] at hagreed
    rw [hagreed, hsteady.whole?_eq hworld h.world, hwhole]

/-- **Resolving a child by one of its names keeps memory faithful.** Field by field: the outside
stays steady, identities stay unique, what is new agrees on its names because it was handed out, and
what was learnt is what would be learnt now. -/
theorem Faithful.resolve (hsteady : catalog.Steady steady) (hagree : AlwaysAgree catalog steady)
    (h : Faithful catalog steady memory) (hparent : Holds catalog memory parent)
    (hchild : parent.findChild? word = some node)
    (hrun : (catalog.resolve node word).run memory = (outcome, after)) :
    Faithful catalog steady after := by
  have hnode := hparent.child hchild
  refine ⟨steady_of_resolve hsteady h.world hrun, (grows_of_resolve h.coherent hnode hrun).coherent,
    fun origin horigin a ha => ?_, fun a came other world ha hresolved hother hworld => ?_,
    fun name root world hroot => ?_⟩
  · rcases holds_resolve hrun horigin with hold | hwithin
    · exact h.agree origin hold a ha
    · exact agree_of_resolve hagree h.world h.agree
        (fun origin horigin => h.agree origin (hnode.part horigin)) hrun hwithin ha
  · exact resolved_of_resolve hsteady h hparent hchild hrun ha hresolved hother hworld
  · rw [roots_of_resolve hrun] at hroot
    exact h.loaded name root world hroot

theorem steady_of_loadReference {world asked : σ} {answer : Except Failure (Option Supply)}
    (hsteady : catalog.Steady steady) (hworld : steady world)
    (hsource : (catalog.loadReference name).run world = (answer, asked)) : steady asked := by
  obtain ⟨constant, hconstant⟩ := hsteady.source name
  have hafter := (hconstant _ hworld).2
  rw [show (catalog.source.load name).run world = (answer, asked) from hsource] at hafter
  exact hafter

theorem steady_of_loadRoot (hsteady : catalog.Steady steady) (hworld : steady memory.world)
    (hrun : (catalog.loadRoot name).run memory = (outcome, after)) : steady after.world := by
  cases loadsRoot_of_loadRoot hrun with
  | unlisted | known => exact hworld
  | missing _ _ hsource => exact steady_of_loadReference hsteady hworld hsource
  | supplied _ _ hsource _ hresolved =>
    rw [Memory.world_keep]
    exact steady_of_resolve hsteady (steady_of_loadReference hsteady hworld hsource) hresolved

theorem agree_of_loadRoot (hsteady : catalog.Steady steady) (hagree : AlwaysAgree catalog steady)
    (h : Faithful catalog steady memory)
    (hrun : (catalog.loadRoot name).run memory = (outcome, after))
    (hparent : Holds catalog after parent) (ha : a ∈ parent.children) :
    AliasesAgree catalog steady a.plain := by
  have hloads := loadsRoot_of_loadRoot hrun
  cases hloads with
  | unlisted | known => exact h.agree parent hparent a ha
  | missing => exact h.agree parent (hparent.mono (.of_eq rfl rfl)) a ha
  | @supplied _ world grammar _ _ _ _ hsource hsupplied hresolved =>
    rcases holds_supplied hresolved hparent with hold | hwithin
    · exact h.agree parent hold a ha
    · have hout : HandsOut catalog steady grammar := by
        refine ⟨memory.world, h.world, .inl ⟨name, ?_⟩⟩
        rw [hsource]
        exact hsupplied
      have hasked : steady (adopted memory grammar world).world :=
        steady_of_loadReference hsteady h.world hsource
      have hheld : ∀ origin, Holds catalog (adopted memory grammar world) origin →
          ∀ child ∈ origin.children, AliasesAgree catalog steady child.plain :=
        fun origin horigin => h.agree origin (horigin.mono (.of_eq rfl rfl))
      exact agree_of_resolve hagree hasked hheld (fun _ => hout.agree hagree) hresolved hwithin ha

/-- The only command that is new is the one that was loaded, and it was loaded as if nothing had
been remembered. Its identity is new, as `run_commandGrammar?_of_loadRoot` asks for. -/
theorem loaded_of_loadRoot (hsteady : catalog.Steady steady) (h : Faithful catalog steady memory)
    (hrun : (catalog.loadRoot name).run memory = (outcome, after))
    {other : String} {root : CatalogNode} {world : σ} (hroot : after.roots.lookup other = some root)
    (hworld : steady world) :
    ((catalog.commandGrammar? other).run world).1 = some root.plain := by
  cases hbefore : memory.roots.lookup other with
  | some found =>
    rw [(extends_of_loadRoot hrun).roots other found hbefore] at hroot
    cases hroot
    exact h.loaded other root world hbefore hworld
  | none =>
    obtain rfl : other = name := by
      by_contra hne
      rw [(roots_of_loadRoot hrun).2 other hne, hbefore] at hroot
      cases hroot
    have hgrammar := run_commandGrammar?_of_loadRoot hrun hbefore
      (h.coherent.unknown (Nat.le_refl _))
    cases outcome with
    | none =>
      rw [(roots_of_loadRoot hrun).1 rfl, hbefore] at hroot
      cases hroot
    | some found =>
      rw [((loadRoot_cases hrun).2 found rfl).2] at hroot
      cases hroot
      rw [hsteady.commandGrammar?_eq hworld h.world, hgrammar]
      rfl

/-- **Loading a command keeps memory faithful.** -/
theorem Faithful.loadRoot (hsteady : catalog.Steady steady) (hagree : AlwaysAgree catalog steady)
    (h : Faithful catalog steady memory)
    (hrun : (catalog.loadRoot name).run memory = (outcome, after)) :
    Faithful catalog steady after := by
  have hgrows := grows_of_loadRoot h.coherent hrun
  refine ⟨steady_of_loadRoot hsteady h.world hrun, hgrows.coherent, fun parent hparent a ha => ?_,
    fun a came other world ha hresolved hother hworld => ?_, fun other root world hroot hworld => ?_⟩
  · exact agree_of_loadRoot hsteady hagree h hrun hparent ha
  · rw [definition_of_loadRoot h.coherent hrun ha] at hresolved
    have hheld := hgrows.holds_of_resolved h.coherent ha hresolved
    exact h.resolved a came other world hheld hresolved hother hworld
  · exact loaded_of_loadRoot hsteady h hrun hroot hworld

/-- **All that is loaded keeps memory faithful.** By induction on the loads, so for every request
and every session. -/
theorem Faithful.loads {words : List String} (hsteady : catalog.Steady steady)
    (hagree : AlwaysAgree catalog steady) (h : Faithful catalog steady memory)
    (hloads : Loads catalog words memory after) : Faithful catalog steady after := by
  induction hloads with
  | nothing => exact h
  | child _ hparent hchild _ _ hresolve _ ih =>
    exact ih (h.resolve hsteady hagree hparent hchild hresolve)
  | root _ _ _ hload _ ih => exact ih (h.loadRoot hsteady hagree hload)

/-- The nodes that a catalog begins with are told no word. -/
theorem loader_of_initial {world : σ} (h : Holds catalog (catalog.initialMemory world) a) :
    ∀ name, a.plain.loader ≠ some (.generator name) := by
  obtain ⟨tree, htree, hmem⟩ := h
  cases htree with
  | commands =>
    -- The commands are references, one below the other two trees' depth, and paths have no
    -- children.
    rcases Node.mem_parts_iff.mp (plain_mem_parts hmem) with heq | ⟨child, hchild, hpart⟩ | ⟨_, hcarried, -⟩
    · rw [heq]
      rintro name ⟨⟩
    · obtain ⟨command, -, rfl⟩ := List.mem_map.mp hchild
      rcases Node.mem_parts_iff.mp hpart with heq | ⟨_, hnone, -⟩ | ⟨_, hcarried, -⟩
      · rw [heq]
        rintro name ⟨⟩
      · cases hnone
      · cases hcarried
    · cases hcarried
  | paths =>
    rcases Node.mem_parts_iff.mp (plain_mem_parts hmem) with heq | ⟨_, hnone, -⟩ | ⟨_, hcarried, -⟩
    · rw [heq]
      rintro name ⟨⟩
    · cases hnone
    · cases hcarried
  | root h => cases h
  | outcome h => cases h

/-- A catalog that was not used yet remembers nothing that could be wrong. -/
theorem faithful_initialMemory (catalog : Catalog σ) {world : σ} (hworld : steady world) :
    Faithful catalog steady (catalog.initialMemory world) := by
  refine ⟨hworld, catalog.coherent_initialMemory world, fun parent hparent child hchild => ?_, ?_,
    by rintro name root world ⟨⟩⟩
  · exact aliasesAgree_of_loader
      (loader_of_initial (hparent.part (Node.mem_parts_of_mem_children hchild)))
  · intro node outcome word world _ hresolved
    obtain ⟨-, hknown⟩ := Memory.definition_eq_resolved_iff.mp hresolved
    cases hknown

end Catalog

end CommandCompletion
