/-
Sessions: an engine used over and over.

A session begins with what the catalog remembers before it is used. Then the
engine is asked for suggestions, for the grammar of a command or for a child of a
node, as often and in whatever order one likes, and in between whatever lies
outside may change.

`LoadsOnce` collects what a user of the engine can rely on at every moment of a
session: a deferred node is resolved at most once and a command is loaded at most
once, for good; a command that could not be loaded is tried again; and a call
loads nothing but what its words name. That a remembered answer costs nothing is
said by handing the question to any other catalog, with another source, other
generators, another locator and another probe: it answers the same, and nothing
outside has changed.
-/
import CommandCompletion.Proofs.Requests

set_option autoImplicit false

namespace CommandCompletion

variable {σ : Type}

/-! ## Calls -/

/-- A use of an engine. -/
inductive Call where
  /-- Suggestions for a line. -/
  | suggest (home : Option String) (shell : Shell) (cwd line : String)
  /-- The grammar of a command. -/
  | loadRoot (name : String)
  /-- The child of a node that answers to a word. -/
  | resolveChild (parent : CatalogNode) (word : String)

namespace Call

/-- The words of a call that can name something. -/
def words : Call → List String
  | .suggest _ shell _ line => shell.completeWords line
  | .loadRoot name => [name]
  | .resolveChild _ word => [word]

/-- Only nodes that came from the catalog are handed back to it. A node that a caller made up could
have the identity of another one, and be answered with its outcome. -/
def Allowed (catalog : Catalog σ) (memory : Memory σ) : Call → Prop
  | .suggest _ _ _ _ | .loadRoot _ => True
  | .resolveChild parent _ => catalog.Holds memory parent

/-- What is remembered after a call. -/
def after (engine : Engine σ) (memory : Memory σ) : Call → Memory σ
  | .suggest home shell cwd line => ((engine.suggest home shell cwd line).run memory).2
  | .loadRoot name => ((engine.catalog.loadRoot name).run memory).2
  | .resolveChild parent word => ((engine.catalog.resolveChild parent word).run memory).2

variable {engine : Engine σ} {memory : Memory σ}

/-- A call loads what its words name. The three kinds of calls have their traces from the modules
before; from here on a call is nothing else. -/
theorem loads (call : Call) (hallowed : call.Allowed engine.catalog memory) :
    engine.catalog.Loads call.words memory (call.after engine memory) := by
  cases call with
  | suggest => exact Engine.loads_of_suggest rfl
  | loadRoot => exact Catalog.loads_of_loadRoot rfl
  | resolveChild => exact (Catalog.loads_of_resolveChild hallowed rfl).1

end Call

/-! ## Sessions -/

namespace Engine

/-- The engine was used for a while. What lies outside may change between calls in any way: nothing
that is said of a session may depend on a source that answers the same twice. -/
inductive Session (engine : Engine σ) (memory : Memory σ) : Memory σ → Prop where
  | start : Session engine memory memory
  | call {later : Memory σ} (h : Session engine memory later) (call : Call)
      (hallowed : call.Allowed engine.catalog later) :
      Session engine memory (call.after engine later)
  /-- Something changes outside, which is none of the engine's doing. -/
  | outside {later : Memory σ} (h : Session engine memory later) (world : σ) :
      Session engine memory { later with world := world }

variable {engine : Engine σ} {memory later : Memory σ}

theorem Session.extends (h : engine.Session memory later)
    (hcoherent : engine.catalog.Coherent memory) :
    memory.Extends later ∧ engine.catalog.Coherent later := by
  induction h with
  | start => exact ⟨.refl memory, hcoherent⟩
  | call _ call hallowed ih =>
    have hgrows := (call.loads hallowed).grows ih.2
    exact ⟨ih.1.trans hgrows.extended, hgrows.coherent⟩
  | @outside later _ world ih =>
    have hsame : ({ later with world := world } : Memory σ).Extends later := .of_eq rfl rfl
    have hafter : Identified (engine.catalog.Holds later) { later with world := world } :=
      ih.2.of_eq rfl rfl
    exact ⟨ih.1.trans (.of_eq rfl rfl), hafter.mono fun a ha => ha.mono hsame⟩

end Engine

/-- Only commands are remembered as commands. -/
def Catalog.ListsRoots (catalog : Catalog σ) (memory : Memory σ) : Prop :=
  ∀ name root, memory.roots.lookup name = some root → catalog.rootNames.contains name = true

theorem Catalog.Loads.listsRoots {catalog : Catalog σ} {words : List String}
    {memory after : Memory σ} (h : Loads catalog words memory after)
    (hlists : catalog.ListsRoots memory) : catalog.ListsRoots after := by
  induction h with
  | nothing => exact hlists
  | child _ _ _ _ _ hresolve _ ih =>
    refine ih fun name root hroot => hlists name root ?_
    rw [← roots_of_resolve hresolve]
    exact hroot
  | @root name _ _ _ _ _ hlisted _ hload _ ih =>
    refine ih fun other root hroot => ?_
    by_cases heq : other = name
    · rw [heq]
      exact hlisted
    · rw [(roots_of_loadRoot hload).2 other heq] at hroot
      exact hlists other root hroot

theorem Engine.Session.listsRoots {engine : Engine σ} {memory later : Memory σ}
    (h : engine.Session memory later) (hlists : engine.catalog.ListsRoots memory) :
    engine.catalog.ListsRoots later := by
  induction h with
  | start => exact hlists
  | call _ call hallowed ih => exact (call.loads hallowed).listsRoots ih
  | outside _ _ ih => exact ih

/-! ## At most once -/

/-- What holds at a moment of a session (specification, § 3, last invariants, and § 8, second
property). The fields speak of the moment and of all later ones; those about cost ask any other
catalog, so that no source, generator or probe can have been involved in the answer. -/
structure Engine.LoadsOnce (engine : Engine σ) (memory : Memory σ) : Prop where
  /-- What is remembered under an identity belongs to one node. -/
  distinct : ∀ a b, engine.catalog.Holds memory a → engine.catalog.Holds memory b →
    a.loader ≠ none → b.loader ≠ none → a.id = b.id → a = b
  /-- A definition changes at most once, from unresolved to resolved. -/
  definition : ∀ later, engine.Session memory later → ∀ node,
    later.definition node = memory.definition node ∨ ∃ loader outcome,
      memory.definition node = .unresolved loader ∧ later.definition node = .resolved outcome
  /-- What a lookup of a deferred node comes to is its definition from then on. -/
  resolve : ∀ node word outcome after, node.loader ≠ none →
    (engine.catalog.resolve node word).run memory = (outcome, after) →
      after.definition node = .resolved outcome
  /-- A resolved node stays as it is, and nothing is asked for it again. -/
  resolved : ∀ node outcome, memory.definition node = .resolved outcome →
    ∀ later, engine.Session memory later → ∀ (any : Catalog σ) (word : String),
      (any.resolve node word).run later = (outcome, later)
  /-- A command that was loaded stays loaded, and nothing is asked for it again. -/
  loaded : ∀ name root after, (engine.catalog.loadRoot name).run memory = (some root, after) →
    ∀ later, engine.Session after later → ∀ any : Catalog σ,
      any.rootNames = engine.catalog.rootNames →
        (any.loadRoot name).run later = (some root, later)
  /-- A command that could not be loaded leaves nothing behind. -/
  failed : ∀ name after, (engine.catalog.loadRoot name).run memory = (none, after) →
    after.roots = memory.roots ∧ after.roots.lookup name = none ∧
      ∀ node, engine.catalog.Holds after node →
        engine.catalog.Holds memory node ∧ after.definition node = memory.definition node
  /-- A command that is not remembered is loaded from what lies outside now. -/
  tried : ∀ name outcome after, memory.roots.lookup name = none →
    (engine.catalog.loadRoot name).run memory = (outcome, after) →
      (engine.catalog.commandGrammar? name).run memory.world =
        (outcome.map Node.plain, after.world)
  /-- A call loads what its words name, and changes nothing else. -/
  confined : ∀ call : Call, call.Allowed engine.catalog memory →
    engine.catalog.Loads call.words memory (call.after engine memory) ∧
    (∀ node, engine.catalog.Holds (call.after engine memory) node →
      (call.after engine memory).definition node = memory.definition node ∨
        engine.catalog.Names (call.after engine memory) call.words node) ∧
    ∀ name, name ∉ call.words →
      (call.after engine memory).roots.lookup name = memory.roots.lookup name

namespace Catalog

variable {catalog : Catalog σ} {memory after : Memory σ} {name : String}

/-- A failed load leaves no tree behind, although it may have run a loader: the outcome of a
document that could not be resolved is remembered, and it is none. -/
theorem failed_of_loadRoot (hlists : catalog.ListsRoots memory)
    (h : (catalog.loadRoot name).run memory = (none, after)) :
    after.roots = memory.roots ∧ after.roots.lookup name = none ∧
      ∀ node, Holds catalog after node → Holds catalog memory node := by
  have hroots : after.roots = memory.roots := (roots_of_loadRoot h).1 rfl
  refine ⟨hroots, ?_, fun node hnode => ?_⟩
  · rw [hroots]
    cases loadsRoot_of_loadRoot h with
    | unlisted hunlisted =>
      cases hlookup : memory.roots.lookup name with
      | none => rfl
      | some root =>
        rw [hlists name root hlookup] at hunlisted
        cases hunlisted
    | missing _ hunknown | supplied _ hunknown => exact hunknown
  · cases hloads : loadsRoot_of_loadRoot h with
    | unlisted => exact hnode
    | missing => exact hnode.mono (.of_eq rfl rfl)
    | supplied _ _ _ _ hresolved =>
      rcases holds_supplied hresolved hnode with hold | ⟨_, ⟨⟩, -⟩
      exact hold

end Catalog

/-- **At every moment of every session, deferred nodes and commands are loaded at most once, and
only those that a word of the call names** (specification, § 3, `Unresolved → Resolved` exactly
once, and § 8, memoization). Two invariants are carried through a session, `Coherent` and
`ListsRoots`; what a single call may do besides follows from the loads it is made of (`Loads`). -/
theorem Engine.loadsOnce (engine : Engine σ) (world : σ) {memory : Memory σ}
    (hsession : engine.Session (engine.catalog.initialMemory world) memory) :
    engine.LoadsOnce memory := by
  -- Two invariants are carried through the session; everything else follows from them at one
  -- moment.
  have hcoherent : engine.catalog.Coherent memory :=
    (hsession.extends (engine.catalog.coherent_initialMemory world)).2
  have hlists : engine.catalog.ListsRoots memory := by
    refine hsession.listsRoots ?_
    rintro name root ⟨⟩
  constructor
  case distinct => exact hcoherent.same
  case definition =>
    intro later hlater node
    exact (hlater.extends hcoherent).1.definition node
  case resolve =>
    intro node word outcome after hdeferred hrun
    rcases Catalog.settled_of_resolve hrun with ⟨hwhole, -⟩ | hknown
    · exact absurd hwhole hdeferred
    · exact Memory.definition_eq_resolved_iff.mpr hknown
  case resolved =>
    intro node outcome hresolved later hlater any word
    obtain ⟨hdeferred, hknown⟩ := Memory.definition_eq_resolved_iff.mp hresolved
    have hextends := (hlater.extends hcoherent).1
    exact Catalog.resolve_of_known hdeferred (hextends.outcomes _ _ hknown)
  case loaded =>
    intro name root after hrun later hlater any hnames
    have hafter := (Catalog.grows_of_loadRoot hcoherent hrun).coherent
    have hlisted := ((Catalog.loadRoot_cases hrun).2 root rfl).1
    exact Catalog.loadRoot_replay hrun (hlater.extends hafter).1 any
      (by unfold Catalog.rootNames at hnames ⊢; rw [hnames]; exact hlisted)
  case failed =>
    intro name after hrun
    obtain ⟨hroots, hlookup, hheld⟩ := Catalog.failed_of_loadRoot hlists hrun
    refine ⟨hroots, hlookup, fun node hnode => ⟨hheld node hnode, ?_⟩⟩
    exact Catalog.definition_of_loadRoot hcoherent hrun hnode
  case tried =>
    -- The identity that a document gets is still to be given, so nothing can be known under it.
    intro name outcome after hunknown hrun
    exact Catalog.run_commandGrammar?_of_loadRoot hrun hunknown
      (hcoherent.unknown (Nat.le_refl _))
  case confined =>
    intro call hallowed
    have hloads := call.loads hallowed
    exact ⟨hloads, fun node hnode => hloads.definition hcoherent hnode,
      fun name hname => hloads.roots hname⟩

/-! A command with two deferred children, of which one is used. -/

namespace Engine

/-- Knows these documents and generators, and nothing else. The generators record
what they are asked. -/
def scripted (entries : List (String × Supply))
    (answers : List (String × Except Failure Generated)) : Engine World :=
  ofCatalog (fun world => world.files) {
    source := Source.ofEntries entries
    generators := answers.map fun (name, answer) => (name, .ofAnswer name answer)
    probe := ⟨fun command _ => return .error (.probeNotStarted command "no commands")⟩ }

/-- Knows `tool`, both of whose children come from one generator. -/
def pluginEngine : Engine World := scripted
  [("tool", .grammar {
    id := ()
    names := ["tool"]
    children := [
      { id := (), names := ["plugin", "p"], loader := some (.generator "plugins") },
      { id := (), names := ["other"], loader := some (.generator "plugins") }] })]
  [("plugins", .ok (.fragment {
    id := ()
    children := [{ id := (), names := ["install"] }] }))]

/-- After a line with `plugin` in it, one with its other name, and a look at the
command itself. -/
def pluginMemory : Memory World :=
  let started := pluginEngine.catalog.initialMemory {}
  let named := Call.after pluginEngine started (.suggest none .bash "/w" "tool plugin i")
  let again := Call.after pluginEngine named (.suggest none .bash "/w" "tool p ot")
  Call.after pluginEngine again (.loadRoot "tool")

/-- The generator was asked once, for the one child that was named. -/
theorem loadsOnce_plugin :
    pluginEngine.Session (pluginEngine.catalog.initialMemory {}) pluginMemory ∧
    pluginMemory.world.log = ["generate plugins plugin"] ∧
    pluginEngine.LoadsOnce pluginMemory := by
  have hsession : pluginEngine.Session (pluginEngine.catalog.initialMemory {}) pluginMemory := by
    have hstart : pluginEngine.Session (pluginEngine.catalog.initialMemory {})
        (pluginEngine.catalog.initialMemory {}) := .start
    have hnamed := hstart.call (.suggest none .bash "/w" "tool plugin i") True.intro
    have hagain := hnamed.call (.suggest none .bash "/w" "tool p ot") True.intro
    exact hagain.call (.loadRoot "tool") True.intro
  exact ⟨hsession, by decide +kernel, loadsOnce pluginEngine {} hsession⟩

end Engine

end CommandCompletion
