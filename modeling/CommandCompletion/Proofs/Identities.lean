/-
The nodes that a catalog hands out, and that each has an identity of its own.

A node can be come by in two ways: it belongs to one of the trees that the
catalog holds (`Catalog.Tree`), which are its own two, the grammars of the
commands that were loaded and what deferred nodes came to; or it belongs to a
tree that was loaded just now. `Identified` says of such a collection of nodes
that identities tell deferred ones apart and that those still to be given are
new. Everything that loading does keeps it, one lemma for each thing: giving
identities to a grammar, laying a fragment over a node, remembering.
-/
import CommandCompletion.Proofs.Loading

set_option autoImplicit false

namespace CommandCompletion

variable {σ : Type}

/-! ## What a catalog holds -/

namespace Catalog

variable {catalog : Catalog σ} {memory after : Memory σ} {node a b : CatalogNode}
variable {outcome : Option CatalogNode}

/-- A tree in use: one that a walk can start from or be led to. A node with a loader occurs in such
a tree as it was written; what it came to is a tree of its own, remembered under its identity. -/
inductive Tree (catalog : Catalog σ) (memory : Memory σ) : CatalogNode → Prop where
  | commands : Tree catalog memory catalog.rootNode
  | paths : Tree catalog memory catalog.filepathNode
  | root {name : String} {root : CatalogNode} (h : memory.roots.lookup name = some root) :
      Tree catalog memory root
  | outcome {id : Nat} {whole : CatalogNode} (h : memory.outcomes.lookup id = some (some whole)) :
      Tree catalog memory whole

/-- The nodes of a result, if there is one. -/
def Within (outcome : Option CatalogNode) (node : CatalogNode) : Prop :=
  ∃ tree, outcome = some tree ∧ node ∈ tree.parts

/-- The node belongs to a tree in use. -/
def Holds (catalog : Catalog σ) (memory : Memory σ) (node : CatalogNode) : Prop :=
  ∃ tree, Tree catalog memory tree ∧ node ∈ tree.parts

theorem Tree.holds (h : Tree catalog memory node) : Holds catalog memory node :=
  ⟨node, h, node.self_mem_parts⟩

theorem Holds.part (h : Holds catalog memory b) (hpart : a ∈ b.parts) : Holds catalog memory a := by
  obtain ⟨tree, htree, hmem⟩ := h
  exact ⟨tree, htree, Node.mem_parts_trans hpart hmem⟩

theorem Holds.child {word : String} (h : Holds catalog memory b)
    (hchild : b.findChild? word = some a) : Holds catalog memory a :=
  h.part (Node.mem_parts_of_mem_children (Node.findChild?_eq_some hchild).1)

/-- Nothing that is held is ever dropped. -/
theorem Holds.mono (h : Holds catalog memory node) (hextends : memory.Extends after) :
    Holds catalog after node := by
  obtain ⟨tree, htree, hmem⟩ := h
  refine ⟨tree, ?_, hmem⟩
  cases htree with
  | commands => exact .commands
  | paths => exact .paths
  | root h => exact .root (hextends.roots _ _ h)
  | outcome h => exact .outcome (hextends.outcomes _ _ h)

theorem holds_settle {id : Nat} (h : Holds catalog (memory.settle id outcome) a) :
    Holds catalog memory a ∨ Within outcome a := by
  obtain ⟨tree, htree, hmem⟩ := h
  cases htree with
  | commands => exact .inl ⟨_, .commands, hmem⟩
  | paths => exact .inl ⟨_, .paths, hmem⟩
  | root h => exact .inl ⟨_, .root h, hmem⟩
  | outcome h =>
    rw [Memory.lookup_settle] at h
    split at h
    · cases h
      exact .inr ⟨_, rfl, hmem⟩
    · exact .inl ⟨_, .outcome h, hmem⟩

theorem holds_keep {name : String} (h : Holds catalog (memory.keep name outcome) a) :
    Holds catalog memory a ∨ Within outcome a := by
  cases outcome with
  | none => exact .inl h
  | some found =>
    obtain ⟨tree, htree, hmem⟩ := h
    cases htree with
    | commands => exact .inl ⟨_, .commands, hmem⟩
    | paths => exact .inl ⟨_, .paths, hmem⟩
    | root h =>
      rw [Memory.lookup_keep] at h
      split at h
      · cases h
        exact .inr ⟨_, rfl, hmem⟩
      · exact .inl ⟨_, .root h, hmem⟩
    | outcome h => exact .inl ⟨_, .outcome h, hmem⟩

end Catalog

/-! ## Identities -/

/-- The nodes of a collection have been given identities below those still to be given, and deferred
ones can be told apart by them. Only deferred nodes are kept apart because an overlay takes the
identity of its fragment; it is whole, so nothing is ever remembered for it. -/
structure Identified (held : CatalogNode → Prop) (memory : Memory σ) : Prop where
  below : ∀ node, held node → node.id < memory.next
  known : ∀ id outcome, memory.outcomes.lookup id = some outcome → id < memory.next
  same : ∀ a b, held a → held b → a.loader ≠ none → b.loader ≠ none → a.id = b.id → a = b

namespace Identified

variable {held fewer : CatalogNode → Prop} {memory after : Memory σ} {base fragment : CatalogNode}

/-- A smaller collection is identified as well. Most steps below prove the invariant for all that
was there and all that came, and keep the part that is asked for. -/
theorem mono (h : Identified held memory) (hfewer : ∀ node, fewer node → held node) :
    Identified fewer memory where
  below := fun node hnode => h.below node (hfewer node hnode)
  known := h.known
  same := fun a b ha hb => h.same a b (hfewer a ha) (hfewer b hb)

/-- Only what identities are left and what is known under them matters. -/
theorem of_eq (h : Identified held memory) (hnext : after.next = memory.next)
    (houtcomes : after.outcomes = memory.outcomes) : Identified held after where
  below := by rw [hnext]; exact h.below
  known := by rw [hnext, houtcomes]; exact h.known
  same := h.same

/-- Giving identities to a grammar: those given before lie below those given now, and among the new
ones none is given twice (`Node.number_parts_inj`). -/
theorem adopt (h : Identified held memory) (grammar : Grammar) (world : σ) :
    Identified (fun node => held node ∨ node ∈ (grammar.number memory.next).1.parts)
      { memory with world := world, next := (grammar.number memory.next).2 } where
  below := by
    have hnext := Node.next_lt_number grammar memory.next
    rintro node (hold | hnew)
    · exact Nat.lt_trans (h.below node hold) hnext
    · exact (Node.mem_number_parts hnew).2
  known := fun id outcome hknown =>
    Nat.lt_trans (h.known id outcome hknown) (Node.next_lt_number grammar memory.next)
  same := by
    -- Identities given before lie below those given now.
    rintro a b (ha | ha) (hb | hb) hdeferred hdeferred' hid
    · exact h.same a b ha hb hdeferred hdeferred' hid
    · have hold := h.below a ha
      have hnew := (Node.mem_number_parts hb).1
      omega
    · have hnew := (Node.mem_number_parts ha).1
      have hold := h.below b hb
      omega
    · exact Node.number_parts_inj ha hb hid

/-- Laying a fragment over a node. The overlay takes the fragment's identity, but
it is whole. -/
theorem overlay (h : Identified held memory) (hbase : ∀ node ∈ base.parts, held node)
    (hfragment : ∀ node ∈ fragment.parts, held node) :
    Identified (fun node => held node ∨ node ∈ (base.overlay fragment).parts) memory := by
  -- Of the nodes of an overlay only the overlay itself is new.
  have cases_of : ∀ node, held node ∨ node ∈ (base.overlay fragment).parts →
      held node ∨ node = base.overlay fragment := by
    rintro node (hold | hmem)
    · exact .inl hold
    · rcases Node.mem_parts_overlay hmem with rfl | ⟨child, hchild, hpart⟩ | ⟨child, hchild, hpart⟩
      · exact .inr rfl
      · have hmem := Node.mem_parts_of_mem_children hchild
        exact .inl (hbase node (Node.mem_parts_trans hpart hmem))
      · have hmem := Node.mem_parts_of_mem_children hchild
        exact .inl (hfragment node (Node.mem_parts_trans hpart hmem))
  -- Two deferred nodes cannot be the overlay, which is whole, so they were told apart before.
  refine ⟨fun node hnode => ?_, h.known, fun a b ha hb hdeferred hdeferred' hid => ?_⟩
  · rcases cases_of node hnode with hold | rfl
    · exact h.below node hold
    · exact h.below fragment (hfragment fragment fragment.self_mem_parts)
  · rcases cases_of a ha with ha | rfl
    · rcases cases_of b hb with hb | rfl
      · exact h.same a b ha hb hdeferred hdeferred' hid
      · exact absurd rfl hdeferred'
    · exact absurd rfl hdeferred

/-- Remembering what came of a node. -/
theorem settle (h : Identified held memory) {id : Nat} (hid : id < memory.next)
    (outcome : Option CatalogNode) : Identified held (memory.settle id outcome) where
  below := h.below
  known := by
    intro other found hfound
    rw [Memory.lookup_settle] at hfound
    split at hfound
    · rename_i heq
      rw [heq]
      exact hid
    · exact h.known other found hfound
  same := h.same

/-- Nothing is remembered under an identity that is still to be given. -/
theorem unknown (h : Identified held memory) {id : Nat} (hid : memory.next ≤ id) :
    memory.outcomes.lookup id = none := by
  cases hlookup : memory.outcomes.lookup id with
  | none => rfl
  | some outcome =>
    have hknown := h.known id outcome hlookup
    omega

end Identified

/-! ## Loading keeps identities -/

namespace Catalog

variable {catalog : Catalog σ} {memory after loaded : Memory σ} {node a : CatalogNode}
variable {outcome found? : Option CatalogNode} {word : String} {held : CatalogNode → Prop}

/-- The nodes of a fragment come with it, or are new. A carried fragment was numbered with the node
that carries it, so its nodes are among the node's own parts. -/
theorem FindsFragment.identified {loader : Loader CatalogNode}
    (hfinds : FindsFragment catalog word memory loader found? loaded)
    (h : Identified held memory) (hnode : ∀ a ∈ node.parts, held a)
    (hloader : node.loader = some loader) :
    Identified (fun a => held a ∨ Within found? a) loaded := by
  cases hfinds with
  | carried fragment =>
    refine h.mono ?_
    rintro a (hold | ⟨_, ⟨rfl⟩, hmem⟩)
    · exact hold
    · refine hnode a (Node.mem_parts_iff.mpr (.inr (.inr ⟨fragment, ?_, hmem⟩)))
      simp only [Node.carried?, hloader]
  | @missing _ world =>
    have hsame : Identified held { memory with world := world } := h.of_eq rfl rfl
    refine hsame.mono ?_
    rintro a (hold | ⟨_, ⟨⟩, -⟩)
    exact hold
  | @adopted _ grammar world =>
    refine (h.adopt grammar world).mono ?_
    rintro a (hold | ⟨_, ⟨rfl⟩, hmem⟩)
    · exact .inl hold
    · exact .inr hmem

theorem FindsFragment.next_le {loader : Loader CatalogNode}
    (h : FindsFragment catalog word memory loader found? loaded) : memory.next ≤ loaded.next := by
  cases h with
  | carried | missing => exact Nat.le_refl _
  | @adopted _ grammar => exact Nat.le_of_lt (Node.next_lt_number grammar memory.next)

/-- **Resolving a node keeps identities**, with the nodes of the result among those that can be told
apart. The three ways to resolve are three of the lemmas above: nothing happens, a remembered tree
comes into the collection, or a fragment is found, laid over the node and remembered. -/
theorem identified_of_resolve (h : Identified held memory)
    (hholds : ∀ a, Holds catalog memory a → held a) (hnode : ∀ a ∈ node.parts, held a)
    (hrun : (catalog.resolve node word).run memory = (outcome, after)) :
    Identified (fun a => held a ∨ Within outcome a) after := by
  cases resolves_of_resolve hrun with
  | whole =>
    refine h.mono ?_
    rintro a (hold | ⟨_, ⟨rfl⟩, hmem⟩)
    · exact hold
    · exact hnode a hmem
  | known _ hknown =>
    refine h.mono ?_
    rintro a (hold | ⟨tree, rfl, hmem⟩)
    · exact hold
    · exact hholds a ⟨tree, .outcome hknown, hmem⟩
  | @loaded loader fragment? loaded hloader _ hfragment =>
    have hfinds := findsFragment_of_loadFragment hfragment
    -- The outcome is remembered under an identity that was given before the loader ran.
    have hid : node.id < loaded.next :=
      Nat.lt_of_lt_of_le (h.below node (hnode node node.self_mem_parts)) hfinds.next_le
    have hloaded := hfinds.identified h hnode hloader
    cases fragment? with
    | none =>
      refine (hloaded.settle hid none).mono ?_
      rintro a (hold | ⟨_, ⟨⟩, -⟩)
      exact .inl hold
    | some fragment =>
      have hwhole := hloaded.overlay (fun a ha => .inl (hnode a ha))
        (fun a ha => .inr ⟨fragment, rfl, ha⟩)
      refine (hwhole.settle hid (some (node.overlay fragment))).mono ?_
      rintro a (hold | ⟨_, ⟨rfl⟩, hmem⟩)
      · exact .inl (.inl hold)
      · exact .inr hmem

/-- Below a node that was resolved just now stands what stood below it or below the fragment it
carries, and what was loaded. The overlay itself is whole, which is the first case. -/
theorem within_of_resolves {loader : Loader CatalogNode} {fragment? : Option CatalogNode}
    (hloader : node.loader = some loader)
    (hfinds : FindsFragment catalog word memory loader fragment? loaded)
    (hwithin : Within (fragment?.map node.overlay) a) :
    a.loader = none ∨ (∃ child, (child ∈ node.children ∨ node.carried? = some child) ∧
      a ∈ child.parts) ∨
    ∃ grammar, (∀ fragment, loader ≠ .inline fragment) ∧
      ((catalog.fragment? word loader).run memory.world).1 = some grammar ∧
      a ∈ (grammar.number memory.next).1.parts := by
  cases hfinds with
  | missing =>
    obtain ⟨_, ⟨⟩, -⟩ := hwithin
  | carried fragment =>
    obtain ⟨_, ⟨rfl⟩, hmem⟩ := hwithin
    rcases Node.mem_parts_overlay hmem with rfl | ⟨child, hchild, hpart⟩ | ⟨child, hchild, hpart⟩
    · exact .inl rfl
    · exact .inr (.inl ⟨child, .inl hchild, hpart⟩)
    · have hfragment := Node.mem_parts_trans hpart (Node.mem_parts_of_mem_children hchild)
      have hcarried : node.carried? = some fragment := by simp only [Node.carried?, hloader]
      exact .inr (.inl ⟨fragment, .inr hcarried, hfragment⟩)
  | @adopted _ grammar _ habsent hasked =>
    obtain ⟨_, ⟨rfl⟩, hmem⟩ := hwithin
    rcases Node.mem_parts_overlay hmem with rfl | ⟨child, hchild, hpart⟩ | ⟨child, hchild, hpart⟩
    · exact .inl rfl
    · exact .inr (.inl ⟨child, .inl hchild, hpart⟩)
    · have hfragment := Node.mem_parts_trans hpart (Node.mem_parts_of_mem_children hchild)
      exact .inr (.inr ⟨grammar, habsent, by rw [hasked], hfragment⟩)

/-- A child in a node that was resolved just now is a child in the node as it was
or in what was loaded. -/
theorem parent_of_resolves {loader : Loader CatalogNode} {fragment? : Option CatalogNode}
    {parent : CatalogNode} (hloader : node.loader = some loader)
    (hfinds : FindsFragment catalog word memory loader fragment? loaded)
    (hwithin : Within (fragment?.map node.overlay) parent) (hchild : a ∈ parent.children) :
    ∃ origin, a ∈ origin.children ∧ (origin ∈ node.parts ∨
      ∃ grammar, (∀ fragment, loader ≠ .inline fragment) ∧
        ((catalog.fragment? word loader).run memory.world).1 = some grammar ∧
        origin ∈ (grammar.number memory.next).1.parts) := by
  cases hfinds with
  | missing =>
    obtain ⟨_, ⟨⟩, -⟩ := hwithin
  | carried fragment =>
    obtain ⟨_, ⟨rfl⟩, hmem⟩ := hwithin
    obtain ⟨origin, horigin, hbase | hfragment⟩ := Node.parent_of_overlay hmem hchild
    · exact ⟨origin, horigin, .inl hbase⟩
    · have hcarried : node.carried? = some fragment := by simp only [Node.carried?, hloader]
      exact ⟨origin, horigin, .inl (Node.mem_parts_iff.mpr (.inr (.inr ⟨_, hcarried, hfragment⟩)))⟩
  | @adopted _ grammar _ habsent hasked =>
    obtain ⟨_, ⟨rfl⟩, hmem⟩ := hwithin
    obtain ⟨origin, horigin, hbase | hfragment⟩ := Node.parent_of_overlay hmem hchild
    · exact ⟨origin, horigin, .inl hbase⟩
    · exact ⟨origin, horigin, .inr ⟨grammar, habsent, by rw [hasked], hfragment⟩⟩

end Catalog

end CommandCompletion
