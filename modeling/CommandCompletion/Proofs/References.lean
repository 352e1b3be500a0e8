/-
Two ways to a document.

A document is loaded as the grammar of a command, or for a child that refers to
it. As a command it is adopted first and then resolved like any other node, so a
loader of its own runs. For a child it is laid over the child, and what is laid
over is taken to be whole, so a loader of its own is dropped.

While nothing outside changes, the child therefore comes to what the document
itself carries, and that is the grammar of the command exactly if the document's
own loader has nothing to add (`Catalog.resolve_reference`).
-/
import CommandCompletion.Proofs.Independence

set_option autoImplicit false

namespace CommandCompletion

/-! ## What two nodes have in common -/

namespace Node

variable {ι κ μ : Type} {a : Node ι} {b : Node κ} {c : Node μ} {base fragment : Grammar}

/-- The two nodes carry the same names, options, arguments and children. Descriptions, priorities
and whether a node is hidden may differ, as may identities. -/
structure SameContents (a : Node ι) (b : Node κ) : Prop where
  names : a.names = b.names
  options : a.options = b.options
  args : a.args = b.args
  children : a.plain.children = b.plain.children

theorem SameContents.symm (h : SameContents a b) : SameContents b a :=
  ⟨h.names.symm, h.options.symm, h.args.symm, h.children.symm⟩

theorem SameContents.trans (h : SameContents a b) (h' : SameContents b c) : SameContents a c :=
  ⟨h.names.trans h'.names, h.options.trans h'.options, h.args.trans h'.args,
    h.children.trans h'.children⟩

/-- Identities are no part of the contents. -/
theorem sameContents_plain (a : Node ι) : SameContents a a.plain where
  names := (names_plain a).symm
  options := (options_plain a).symm
  args := (args_plain a).symm
  children := by rw [plain_grammar a.plain]

theorem sameContents_of_plain (h : a.plain = b.plain) : SameContents a b := by
  have hplain := sameContents_plain a
  rw [h] at hplain
  exact hplain.trans (sameContents_plain b).symm

theorem orElseNonempty_nil {α : Type} (upper : List α) : orElseNonempty [] upper = upper := by
  unfold orElseNonempty
  cases upper <;> rfl

theorem orElseNonempty_of_ne_nil {α : Type} {base upper : List α} (h : upper ≠ []) :
    orElseNonempty base upper = upper := by
  cases upper with
  | nil => exact absurd rfl h
  | cons => rfl

/-- Over a node that has nothing but a name, a grammar with a name is all there is: what is laid
over a node wins wherever it says something. -/
theorem sameContents_overlay (hnamed : fragment.hasName = true) (hchildren : base.children = [])
    (hoptions : base.options = []) (hargs : base.args = []) :
    SameContents (base.overlay fragment) fragment where
  names := by
    have hne : fragment.names ≠ [] := by simpa [hasName] using hnamed
    exact orElseNonempty_of_ne_nil hne
  options := by
    show orElseNonempty base.options _ = _
    rw [hoptions, orElseNonempty_nil]
  args := by
    show orElseNonempty base.args _ = _
    rw [hargs, orElseNonempty_nil]
  children := by
    rw [plain_grammar, plain_grammar]
    show orElseNonempty base.children _ = _
    rw [hchildren, orElseNonempty_nil]

end Node

namespace Catalog

open Node (SameContents)

variable {σ : Type} {steady : σ → Prop} {catalog : Catalog σ} {key word : String}
variable {memory after other resolved : Memory σ} {root child node : CatalogNode}
variable {outcome : Option CatalogNode} {document : Grammar}

/-! ## Children that refer to a document -/

/-- Carries a name, and refers to the document under it. -/
def referring (key : String) : Grammar where
  id := ()
  names := [key]
  loader := some (.reference key)

/-- The commands of a catalog are such children: the one that answers to a name refers to the
document under it. -/
theorem exists_child_of_listed (h : key ∈ catalog.rootNames) :
    ∃ child, catalog.rootNode.findChild? key = some child ∧ child.plain = referring key := by
  have hmem : referring key ∈ catalog.rootGrammar.children := List.mem_map_of_mem h
  have hanswers : (referring key).answersTo key = true :=
    List.contains_iff_mem.mpr List.mem_cons_self
  obtain ⟨found, hfound⟩ : ∃ found, catalog.rootGrammar.findChild? key = some found :=
    Option.isSome_iff_exists.mp (List.find?_isSome.mpr ⟨_, hmem, hanswers⟩)
  -- Every child has one name, so the one that answers to the key refers to it.
  have hsame : found = referring key := by
    obtain ⟨hchild, hname⟩ := Node.findChild?_eq_some hfound
    obtain ⟨listed, -, rfl⟩ := List.mem_map.mp hchild
    have hkey : key = listed := List.mem_singleton.mp (List.contains_iff_mem.mp hname)
    rw [hkey]
    rfl
  rw [← rootNode_plain, Node.findChild?_plain, hsame] at hfound
  exact Option.map_eq_some_iff.mp hfound

/-- What the document stored under a key is, as long as the outside is steady. -/
def Stores (catalog : Catalog σ) (steady : σ → Prop) (key : String) (document : Grammar) : Prop :=
  ∀ world, steady world → supplied? ((catalog.loadReference key).run world).1 = some document

/-- What is supplied has a name. -/
theorem hasName_of_supplied? {answer : Except Failure (Option Supply)}
    (h : supplied? answer = some document) : document.hasName = true := by
  unfold supplied? Supply.named? at h
  split at h
  · split at h
    · rename_i hnamed
      cases h
      exact hnamed
    · cases h
  · cases h

/-- As a command, a document comes to what its own loader makes of it. It is loaded as if nothing
had been remembered, and the source gives one answer for the key. -/
theorem whole_of_loadRoot (hsteady : catalog.Steady steady) (hworld : steady memory.world)
    (hcoherent : Coherent catalog memory) (hfirst : memory.roots.lookup key = none)
    (hroot : (catalog.loadRoot key).run memory = (some root, after)) :
    ∃ document, Stores catalog steady key document ∧
      ∀ world, steady world → ((catalog.whole? key document).run world).1 = some root.plain := by
  have hlisted := ((loadRoot_cases hroot).2 root rfl).1
  have hgrammar := run_commandGrammar?_of_loadRoot hroot hfirst
    (hcoherent.unknown (Nat.le_refl _))
  -- The catalog's source gives one answer for the key, whenever it is asked.
  obtain ⟨answer, hanswer⟩ := hsteady.source key
  obtain ⟨hfound, hasked⟩ := hanswer memory.world hworld
  have hsource : (catalog.loadReference key).run memory.world =
      (answer, ((catalog.loadReference key).run memory.world).2) := Prod.ext hfound rfl
  rw [run_commandGrammar?_of_listed hlisted hsource] at hgrammar
  cases hsupplied : supplied? answer with
  | none =>
    rw [hsupplied] at hgrammar
    cases hgrammar
  | some document =>
    rw [hsupplied] at hgrammar
    refine ⟨document, fun world hworld => ?_, fun world hworld => ?_⟩
    · rw [show ((catalog.loadReference key).run world).1 = answer from (hanswer world hworld).1]
      exact hsupplied
    · rw [hsteady.whole?_eq hworld hasked]
      exact congrArg Prod.fst hgrammar

/-- Through a child that refers to it, a document comes to what is laid over the child. Its own
loader is not run: an overlay is whole. -/
theorem overlay_of_resolve (hother : steady other.world)
    (hstores : Stores catalog steady key document) (hchild : child.plain = referring key)
    (hunresolved : other.outcomes.lookup child.id = none)
    (hresolved : (catalog.resolve child word).run other = (outcome, resolved)) :
    ∃ node, outcome = some node ∧ node.plain = (referring key).overlay document := by
  -- The child's identity plays no part, so it may be read as a plain reference.
  have hwhole := run_whole?_of_resolve hresolved hunresolved
  rw [← whole?_plain, hchild] at hwhole
  have hanswer : ((catalog.whole? word (referring key)).run other.world).1 =
      some ((referring key).overlay document) := by
    rw [run_whole?_of_loader rfl]
    have hfragment : ((catalog.fragment? word
        (.reference key : Loader Grammar)).run other.world).1 = some document :=
      hstores other.world hother
    rw [hfragment]
    rfl
  rw [hwhole] at hanswer
  exact Option.map_eq_some_iff.mp hanswer

/-! ## The two compared -/

/-- Whatever the document's own loader yields changes nothing that it carries. A document without a
loader adds nothing, and one whose fragment repeats it does not either. -/
def AddsNothing (catalog : Catalog σ) (steady : σ → Prop) (key : String) (document : Grammar) :
    Prop :=
  ∀ loader fragment world, document.loader = some loader → steady world →
    ((catalog.fragment? key loader).run world).1 = some fragment →
      SameContents (document.overlay fragment) document

/-- The grammar of a command is that of its document exactly if the document's own
loader adds nothing. -/
theorem sameContents_iff_addsNothing (hsteady : catalog.Steady steady) {world : σ}
    (hworld : steady world)
    (hroot : ∀ world, steady world →
      ((catalog.whole? key document).run world).1 = some root.plain) :
    SameContents root document ↔ AddsNothing catalog steady key document := by
  cases hloader : document.loader with
  | none =>
    have hsame : document.plain = root.plain := by
      have hwhole := hroot world hworld
      unfold whole? at hwhole
      rw [hloader] at hwhole
      exact Option.some.inj hwhole
    refine ⟨fun _ loader _ _ hsome => ?_, fun _ => (Node.sameContents_of_plain hsame).symm⟩
    rw [hloader] at hsome
    cases hsome
  | some loader =>
    obtain ⟨grammar?, hgrammar⟩ := hsteady.fragment? key loader
    -- The command could be loaded, so its loader did yield something.
    obtain ⟨fragment, rfl, hfragment⟩ : ∃ fragment, grammar? = some fragment ∧
        document.overlay fragment = root.plain := by
      have hwhole := hroot world hworld
      rw [run_whole?_of_loader hloader, (hgrammar world hworld).1, Node.plain_grammar] at hwhole
      exact Option.map_eq_some_iff.mp hwhole
    have hoverlay : SameContents (document.overlay fragment) root := by
      rw [hfragment]
      exact (Node.sameContents_plain root).symm
    constructor
    · intro hsame other yielded world hother hworld hyields
      rw [hloader] at hother
      cases hother
      rw [(hgrammar world hworld).1] at hyields
      cases hyields
      exact hoverlay.trans hsame
    · intro hnothing
      have hfound := (hgrammar world hworld).1
      exact hoverlay.symm.trans (hnothing loader fragment world hloader hworld hfound)

/-- A document as a command, `root`, and through a child that refers to it, `node`. -/
structure BothWays (catalog : Catalog σ) (steady : σ → Prop) (key : String) (document : Grammar)
    (root node : CatalogNode) : Prop where
  stores : Stores catalog steady key document
  /-- No loader is left, also if the document has one. -/
  whole : node.loader = none
  /-- Through a child there is what the document itself carries. -/
  carried : SameContents node document
  /-- The two are the same exactly if the document's own loader adds nothing. -/
  same_iff : SameContents node root ↔ AddsNothing catalog steady key document

/-- **A document whose own loader adds something means less through a reference than as a command**
(specification, § 4.1, `Reference` loaders). It is loaded as a command in `memory`, and through a
child that refers to it in `other`, in whatever order; what it came to then stays. Each way is
characterised by itself (`whole_of_loadRoot`, `overlay_of_resolve`), and what they have in common is
the document. -/
theorem resolve_reference (hsteady : catalog.Steady steady)
    (hworld : steady memory.world) (hother : steady other.world)
    (hcoherent : Coherent catalog memory) (hfirst : memory.roots.lookup key = none)
    (hroot : (catalog.loadRoot key).run memory = (some root, after))
    (hchild : child.plain = referring key)
    (hunresolved : other.outcomes.lookup child.id = none)
    (hresolved : (catalog.resolve child word).run other = (outcome, resolved)) :
    ∃ document node, outcome = some node ∧
      BothWays catalog steady key document root node ∧
      (∀ later, after.Extends later → (catalog.loadRoot key).run later = (some root, later)) ∧
      ∀ later again, resolved.Extends later →
        (catalog.resolve child again).run later = (some node, later) := by
  obtain ⟨document, hstores, hwhole⟩ := whole_of_loadRoot hsteady hworld hcoherent hfirst hroot
  obtain ⟨node, rfl, hnode⟩ := overlay_of_resolve hother hstores hchild hunresolved hresolved
  have hcarried : SameContents node document := by
    have hnamed := hasName_of_supplied? (hstores memory.world hworld)
    have hoverlay : SameContents ((referring key).overlay document) document :=
      Node.sameContents_overlay hnamed rfl rfl rfl
    rw [← hnode] at hoverlay
    exact (Node.sameContents_plain node).trans hoverlay
  have hadds := sameContents_iff_addsNothing hsteady hworld hwhole
  refine ⟨document, node, rfl, ⟨hstores, ?_, hcarried, ?_⟩, ?_, ?_⟩
  · -- What is laid over a node never brings a loader with it.
    have hloader : node.plain.loader = none := by
      rw [hnode]
      rfl
    rw [Node.loader_plain] at hloader
    exact Option.map_eq_none_iff.mp hloader
  · rw [← hadds]
    exact ⟨fun h => h.symm.trans hcarried, fun h => hcarried.trans h.symm⟩
  -- Either outcome is remembered, so asking again changes neither.
  · intro later hlater
    exact loadRoot_replay hroot hlater catalog ((loadRoot_cases hroot).2 root rfl).1
  · intro later again hlater
    exact resolve_replay hresolved hlater catalog again

/-! `make` is written down in one document, `kubectl` in two. -/

/-- Knows `make`, which carries all there is, and `kubectl`, whose children are in
another document. -/
def clusterEngine : Engine World := Engine.scripted
  [("kubectl", .grammar {
    id := ()
    names := ["kubectl"]
    loader := some (.reference "kubectl/v1") }),
   ("kubectl/v1", .grammar {
    id := ()
    names := ["kubectl"]
    children := [{ id := (), names := ["get"] }] }),
   ("make", .grammar {
    id := ()
    names := ["make"]
    children := [{ id := (), names := ["all"] }] })]
  []

/-- What the catalog remembers before it is used. -/
def clusterMemory : Memory World := clusterEngine.catalog.initialMemory {}

/-- Nothing changes the files. -/
theorem clusterEngine_steady :
    clusterEngine.catalog.Steady fun world => world.files = {} :=
  Engine.scripted_steady {}

/-- `make` means the same both ways. -/
theorem resolve_reference_make : ∃ root child node after resolved,
    (clusterEngine.catalog.loadRoot "make").run clusterMemory = (some root, after) ∧
    clusterEngine.catalog.rootNode.findChild? "make" = some child ∧
    (clusterEngine.catalog.resolve child "make").run clusterMemory = (some node, resolved) ∧
    SameContents node root := by
  obtain ⟨child, hfound, hchild⟩ :=
    exists_child_of_listed (by decide +kernel : "make" ∈ clusterEngine.catalog.rootNames)
  obtain ⟨root, hroot⟩ : ∃ root, ((clusterEngine.catalog.loadRoot "make").run clusterMemory).1 =
      some root := Option.isSome_iff_exists.mp (by decide +kernel)
  have hunresolved : clusterMemory.outcomes.lookup child.id = none := rfl
  obtain ⟨document, node, hnode, hways, -⟩ := resolve_reference clusterEngine_steady rfl rfl
    (coherent_initialMemory _ _) rfl (Prod.ext hroot rfl) hchild hunresolved rfl
  refine ⟨root, child, node, _, _, Prod.ext hroot rfl, hfound, Prod.ext hnode rfl,
    hways.same_iff.mpr ?_⟩
  intro loader fragment world hloader _ _
  -- The document has no loader of its own.
  have hwhole : (supplied? ((clusterEngine.catalog.loadReference "make").run {}).1).map
      (fun document => document.loader.isNone) = some true := by
    decide +kernel
  rw [hways.stores {} rfl, Option.map_some, hloader] at hwhole
  cases hwhole

/-- Through a reference, `kubectl` has lost its children. -/
theorem resolve_loses_children : ∃ root child node after resolved,
    (clusterEngine.catalog.loadRoot "kubectl").run clusterMemory = (some root, after) ∧
    clusterEngine.catalog.rootNode.findChild? "kubectl" = some child ∧
    child.plain = referring "kubectl" ∧
    (clusterEngine.catalog.resolve child "kubectl").run clusterMemory = (some node, resolved) ∧
    root.children.map (fun child => child.names) = [["get"]] ∧ node.children = [] ∧
    ¬ SameContents node root := by
  obtain ⟨child, hfound, hchild⟩ :=
    exists_child_of_listed (by decide +kernel : "kubectl" ∈ clusterEngine.catalog.rootNames)
  have hcommand : ((clusterEngine.catalog.loadRoot "kubectl").run clusterMemory).1.map
      (fun root => root.children.map fun child => child.names) = some [["get"]] := by
    decide +kernel
  obtain ⟨root, hroot, hchildren⟩ := Option.map_eq_some_iff.mp hcommand
  have hreference : (clusterEngine.catalog.rootNode.findChild? "kubectl").map (fun child =>
      ((clusterEngine.catalog.resolve child "kubectl").run clusterMemory).1.map
        fun node => node.children.length) = some (some 0) := by
    decide +kernel
  rw [hfound, Option.map_some, Option.some.injEq] at hreference
  obtain ⟨node, hnode, hlength⟩ := Option.map_eq_some_iff.mp hreference
  have hnone : node.children = [] := List.length_eq_zero_iff.mp hlength
  refine ⟨root, child, node, _, _, Prod.ext hroot rfl, hfound, hchild, Prod.ext hnode rfl,
    hchildren, hnone, ?_⟩
  intro hsame
  have hplain := hsame.children
  rw [Node.children_plain, Node.children_plain, hnone, List.map_nil] at hplain
  rw [List.map_eq_nil_iff.mp hplain.symm] at hchildren
  cases hchildren

end Catalog

end CommandCompletion
