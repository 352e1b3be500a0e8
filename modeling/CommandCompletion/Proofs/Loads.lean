/-
Loads, and what they change.

`Loads words before after` says that one memory comes from another by loads
alone, each made for want of an outcome: a deferred child that one of the words
names was resolved, or a command that one of them names was loaded. What lies
outside changes by these loads and nothing else, so whatever keeps a record of
the questions it is asked shows that no other was asked.

Along loads, what is known of a node changes only if a word named it
(`Loads.definition`), and so does what is remembered under the name of a command
(`Loads.roots`).
-/
import CommandCompletion.Proofs.Definitions

set_option autoImplicit false

namespace CommandCompletion

variable {σ : Type}

namespace Catalog

variable {catalog : Catalog σ} {words more : List String}
variable {memory middle after : Memory σ} {node parent a : CatalogNode}
variable {outcome : Option CatalogNode} {word name : String}

/-! ## Loads -/

/-- One memory comes from another by loads, all for nodes and commands that these words name. Each
load is recorded with its reason: nothing was remembered under the identity or the name. What an
engine does between two moments is such a trace (`loads_of_suggest`), and every frame property below
is an induction on it. -/
inductive Loads (catalog : Catalog σ) (words : List String) : Memory σ → Memory σ → Prop where
  | nothing (memory : Memory σ) : Loads catalog words memory memory
  | child {parent node : CatalogNode} {word : String} {outcome : Option CatalogNode}
      {memory middle after : Memory σ} (hword : word ∈ words)
      (hparent : Holds catalog memory parent) (hchild : parent.findChild? word = some node)
      (hdeferred : node.loader ≠ none) (hunknown : memory.outcomes.lookup node.id = none)
      (hresolve : (catalog.resolve node word).run memory = (outcome, middle))
      (hrest : Loads catalog words middle after) : Loads catalog words memory after
  | root {name : String} {outcome : Option CatalogNode} {memory middle after : Memory σ}
      (hword : name ∈ words) (hlisted : catalog.rootNames.contains name = true)
      (hunknown : memory.roots.lookup name = none)
      (hload : (catalog.loadRoot name).run memory = (outcome, middle))
      (hrest : Loads catalog words middle after) : Loads catalog words memory after

theorem Loads.trans (h : Loads catalog words memory middle)
    (h' : Loads catalog words middle after) : Loads catalog words memory after := by
  induction h with
  | nothing => exact h'
  | child hword hparent hchild hdeferred hunknown hresolve _ ih =>
    exact .child hword hparent hchild hdeferred hunknown hresolve (ih h')
  | root hword hlisted hunknown hload _ ih => exact .root hword hlisted hunknown hload (ih h')

theorem Loads.mono (h : Loads catalog words memory after) (hmore : ∀ word ∈ words, word ∈ more) :
    Loads catalog more memory after := by
  induction h with
  | nothing => exact .nothing _
  | child hword hparent hchild hdeferred hunknown hresolve _ ih =>
    exact .child (hmore _ hword) hparent hchild hdeferred hunknown hresolve ih
  | root hword hlisted hunknown hload _ ih =>
    exact .root (hmore _ hword) hlisted hunknown hload ih

/-- Resolving a child is a load of it, or none; and the child that is answered is in use afterwards,
so that its own children can be named next. -/
theorem loads_of_resolveChild (hparent : Holds catalog memory parent)
    (h : (catalog.resolveChild parent word).run memory = (outcome, after)) :
    Loads catalog [word] memory after ∧ ∀ child, outcome = some child → Holds catalog after child := by
  unfold resolveChild at h
  cases hchild : parent.findChild? word with
  | none =>
    rw [hchild] at h
    cases h
    exact ⟨.nothing _, by simp⟩
  | some node =>
    rw [hchild] at h
    refine ⟨?_, ?_⟩
    · cases hresolves : resolves_of_resolve h with
      | whole | known => exact .nothing _
      | loaded hloader hunknown =>
        have hdeferred : node.loader ≠ none := by rw [hloader]; exact Option.some_ne_none _
        exact .child List.mem_cons_self hparent hchild hdeferred hunknown h (.nothing _)
    · rintro child rfl
      exact holds_of_resolve (hparent.child hchild) h

/-- Looking up a command is a load of it, or none. -/
theorem loads_of_loadRoot (h : (catalog.loadRoot name).run memory = (outcome, after)) :
    Loads catalog [name] memory after := by
  cases hloads : loadsRoot_of_loadRoot h with
  | unlisted | known => exact .nothing _
  | missing hlisted hunknown | supplied hlisted hunknown =>
    exact .root List.mem_cons_self hlisted hunknown h (.nothing _)

/-! ## What loads change -/

/-- Nodes in use stay in use, with their identities. Each load keeps what makes identities unique,
and only with that is the next load known not to touch another node. -/
theorem Loads.grows (h : Loads catalog words memory after) (hcoherent : Coherent catalog memory) :
    Grows catalog memory after := by
  induction h with
  | nothing => exact .refl hcoherent
  | child _ hparent hchild _ _ hresolve _ ih =>
    have hstep := grows_of_resolve hcoherent (hparent.child hchild) hresolve
    exact hstep.trans (ih hstep.coherent)
  | root _ _ _ hload _ ih =>
    have hstep := grows_of_loadRoot hcoherent hload
    exact hstep.trans (ih hstep.coherent)

/-- A word names the node: it is the child that answers to it, of a node in use. -/
def Names (catalog : Catalog σ) (memory : Memory σ) (words : List String) (node : CatalogNode) :
    Prop :=
  ∃ parent, ∃ word ∈ words, Holds catalog memory parent ∧ parent.findChild? word = some node

/-- A node that a word named stays named by it: what is held of the parent is held from then on. -/
theorem Names.mono (h : Names catalog memory words a) (hextends : memory.Extends after) :
    Names catalog after words a := by
  obtain ⟨parent, word, hword, hparent, hchild⟩ := h
  exact ⟨parent, word, hword, hparent.mono hextends, hchild⟩

/-- **What is known of a node changes only if a word named it.** This includes the nodes that come
into use: they are unresolved until a word names them. The specification's memoization (§ 3, a tag
goes from unresolved to resolved exactly once) is about one node; this says which nodes it can be.
-/
theorem Loads.definition (h : Loads catalog words memory after)
    (hcoherent : Coherent catalog memory) (ha : Holds catalog after a) :
    after.definition a = memory.definition a ∨ Names catalog after words a := by
  -- From the first load on: it tells something about its own node only, which is
  -- named, unless the node in question came into use later and so was not known.
  induction h with
  | nothing => exact .inl rfl
  | @child parent node word outcome memory middle after hword hparent hchild _ _ hresolve hrest ih =>
    have hnode := hparent.child hchild
    have hstep := grows_of_resolve hcoherent hnode hresolve
    have hgrows := hrest.grows hstep.coherent
    rcases ih hstep.coherent ha with hsame | hnames
    -- The load told something about its own node, and that one is named.
    · by_cases heq : a = node
      · subst heq
        have hextends := hstep.extended.trans hgrows.extended
        have hnamed : Names catalog memory _ a := ⟨parent, word, hword, hparent, hchild⟩
        exact .inr (hnamed.mono hextends)
      · left
        rw [hsame]
        by_cases hmiddle : Holds catalog middle a
        · exact definition_of_resolve hcoherent hnode hresolve hmiddle heq
        · exact hstep.definition_of_new hgrows hcoherent ha hmiddle
    · exact .inr hnames
  | @root name outcome memory middle after hword _ _ hload hrest ih =>
    have hstep := grows_of_loadRoot hcoherent hload
    have hgrows := hrest.grows hstep.coherent
    rcases ih hstep.coherent ha with hsame | hnames
    · left
      rw [hsame]
      by_cases hmiddle : Holds catalog middle a
      · exact definition_of_loadRoot hcoherent hload hmiddle
      · exact hstep.definition_of_new hgrows hcoherent ha hmiddle
    · exact .inr hnames

theorem roots_of_resolve (h : (catalog.resolve node word).run memory = (outcome, after)) :
    after.roots = memory.roots := by
  cases resolves_of_resolve h with
  | whole | known => rfl
  | loaded _ _ hfragment => exact (loadFragment_outcomes hfragment).2

/-- Loading a command changes what is remembered under its name, and only if it succeeds. Resolving
the node of its document does not touch the commands. -/
theorem roots_of_loadRoot (h : (catalog.loadRoot name).run memory = (outcome, after)) :
    (outcome = none → after.roots = memory.roots) ∧
      ∀ other, other ≠ name → after.roots.lookup other = memory.roots.lookup other := by
  cases loadsRoot_of_loadRoot h with
  | unlisted | known | missing => exact ⟨fun _ => rfl, fun _ _ => rfl⟩
  | @supplied _ world grammar _ settled _ _ _ _ hresolved =>
    have hroots : settled.roots = (adopted memory grammar world).roots :=
      roots_of_resolve hresolved
    cases outcome with
    | none => exact ⟨fun _ => hroots, fun other _ => congrArg (List.lookup other) hroots⟩
    | some root =>
      refine ⟨by rintro ⟨⟩, fun other hne => ?_⟩
      rw [Memory.lookup_keep, if_neg hne, hroots]
      rfl

/-- **What is remembered under a command's name changes only if a word is that name.** By induction
on the loads: resolving a child changes no command, and another command is kept under another name.
-/
theorem Loads.roots (h : Loads catalog words memory after) (hname : name ∉ words) :
    after.roots.lookup name = memory.roots.lookup name := by
  induction h with
  | nothing => rfl
  | child _ _ _ _ _ hresolve _ ih => rw [ih, roots_of_resolve hresolve]
  | @root other _ _ _ _ hword _ _ hload _ ih =>
    have hne : name ≠ other := by
      rintro rfl
      exact hname hword
    rw [ih, (roots_of_loadRoot hload).2 name hne]

end Catalog

end CommandCompletion
