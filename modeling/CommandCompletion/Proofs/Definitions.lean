/-
What a catalog knows of each node it holds.

The identities of the deferred nodes that a catalog holds tell them apart
(`Coherent`), so what is remembered under an identity is the definition of one
node. A catalog begins like that, and resolving one of its nodes or loading a
command leaves it like that (`grows_of_resolve`, `grows_of_loadRoot`).

A definition changes only where its node is resolved. Resolving another node and
loading a command leave it as it was, and a deferred node that comes into use is
unresolved (`definition_of_resolve`, `definition_of_loadRoot`).
-/
import CommandCompletion.Proofs.Identities

set_option autoImplicit false

namespace CommandCompletion

variable {σ : Type}

/-! ## What is remembered belongs to one node -/

/-- What a memory knows about a node: the specification's tag (§ 3), read off a table beside the
tree, since nodes themselves are never written to. -/
inductive Definition where
  /-- It was whole from the beginning. -/
  | concrete
  /-- Its loader did not run. -/
  | unresolved (loader : Loader CatalogNode)
  /-- Its loader ran and came to this. -/
  | resolved (outcome : Option CatalogNode)

def Memory.definition (memory : Memory σ) (node : CatalogNode) : Definition :=
  match node.loader with
  | none => .concrete
  | some loader =>
    match memory.outcomes.lookup node.id with
    | none => .unresolved loader
    | some outcome => .resolved outcome

namespace Memory

variable {memory after : Memory σ} {node : CatalogNode} {outcome : Option CatalogNode}

theorem definition_eq_resolved_iff : memory.definition node = .resolved outcome ↔
    node.loader ≠ none ∧ memory.outcomes.lookup node.id = some outcome := by
  unfold definition
  cases node.loader with
  | none => simp
  | some loader => cases memory.outcomes.lookup node.id <;> simp

theorem lookup_eq_none_of_unresolved {loader : Loader CatalogNode}
    (h : memory.definition node = .unresolved loader) :
    memory.outcomes.lookup node.id = none := by
  unfold definition at h
  split at h
  · cases h
  · split at h
    · assumption
    · cases h

theorem definition_congr (h : node.loader ≠ none →
    after.outcomes.lookup node.id = memory.outcomes.lookup node.id) :
    after.definition node = memory.definition node := by
  unfold definition
  cases hloader : node.loader with
  | none => rfl
  | some loader => rw [h (by rw [hloader]; exact Option.some_ne_none _)]

/-- As memories grow, nothing is forgotten about a node, and at most one thing is
learnt. -/
theorem Extends.definition (h : memory.Extends after) (node : CatalogNode) :
    after.definition node = memory.definition node ∨ ∃ loader outcome,
      memory.definition node = .unresolved loader ∧ after.definition node = .resolved outcome := by
  cases hloader : node.loader with
  | none =>
    left
    exact definition_congr fun hdeferred => absurd hloader hdeferred
  | some loader =>
    have hdeferred : node.loader ≠ none := by rw [hloader]; exact Option.some_ne_none _
    cases hbefore : memory.outcomes.lookup node.id with
    | some outcome =>
      left
      exact definition_congr fun _ => by rw [hbefore, h.outcomes _ _ hbefore]
    | none =>
      have hunresolved : memory.definition node = .unresolved loader := by
        simp only [Memory.definition, hloader, hbefore]
      cases hafter : after.outcomes.lookup node.id with
      | none =>
        left
        exact definition_congr fun _ => by rw [hbefore, hafter]
      | some outcome =>
        exact .inr ⟨loader, outcome, hunresolved,
          definition_eq_resolved_iff.mpr ⟨hdeferred, hafter⟩⟩

end Memory

namespace Catalog

variable {catalog : Catalog σ} {memory middle after : Memory σ} {node a : CatalogNode}
variable {outcome : Option CatalogNode} {word : String}

/-- The deferred nodes that a catalog holds can be told apart by what is remembered about them.
Without this an outcome could answer for a node whose loader never ran. -/
def Coherent (catalog : Catalog σ) (memory : Memory σ) : Prop :=
  Identified (catalog.Holds memory) memory

/-- A catalog begins with two trees, numbered one after the other. -/
theorem coherent_initialMemory (catalog : Catalog σ) (world : σ) :
    Coherent catalog (catalog.initialMemory world) := by
  have hempty : Identified (fun _ => False) ({ world := world } : Memory σ) :=
    ⟨by rintro node ⟨⟩, by rintro id outcome ⟨⟩, by rintro a b ⟨⟩⟩
  have hcommands := hempty.adopt catalog.rootGrammar world
  have hboth := hcommands.adopt filepathGrammar world
  have hinitial : Identified _ (catalog.initialMemory world) := hboth.of_eq rfl rfl
  refine hinitial.mono ?_
  rintro node ⟨tree, htree, hmem⟩
  cases htree with
  | commands => exact .inl (.inr hmem)
  | paths => exact .inr hmem
  | root h => cases h
  | outcome h => cases h

/-- What a use of the catalog does to the nodes in use: none is dropped, and those that are new and
deferred have new identities. The relation can be strung together (`trans`), so a session needs it
for one load of each kind only. -/
structure Grows (catalog : Catalog σ) (memory after : Memory σ) : Prop where
  extended : memory.Extends after
  next_le : memory.next ≤ after.next
  held : ∀ a, Holds catalog after a →
    Holds catalog memory a ∨ a.loader = none ∨ memory.next ≤ a.id
  coherent : Coherent catalog after

theorem Grows.refl (h : Coherent catalog memory) : Grows catalog memory memory :=
  ⟨.refl memory, Nat.le_refl _, fun _ ha => .inl ha, h⟩

theorem Grows.trans (h : Grows catalog memory middle) (h' : Grows catalog middle after) :
    Grows catalog memory after where
  extended := h.extended.trans h'.extended
  next_le := Nat.le_trans h.next_le h'.next_le
  held := by
    intro a ha
    rcases h'.held a ha with hmiddle | hwhole | hnew
    · exact h.held a hmiddle
    · exact .inr (.inl hwhole)
    · exact .inr (.inr (Nat.le_trans h.next_le hnew))
  coherent := h'.coherent

/-- Nothing was known of a node that comes into use only later: its identity was still to be given
then. -/
theorem Grows.definition_of_new (hstep : Grows catalog memory middle)
    (h : Grows catalog middle after) (hcoherent : Coherent catalog memory)
    (ha : Holds catalog after a) (hnew : ¬ Holds catalog middle a) :
    middle.definition a = memory.definition a := by
  refine Memory.definition_congr fun hdeferred => ?_
  rcases h.held a ha with hold | hwhole | hid
  · exact absurd hold hnew
  · exact absurd hwhole hdeferred
  · rw [hstep.coherent.unknown hid, hcoherent.unknown (Nat.le_trans hstep.next_le hid)]

/-- A node of which something is known was in use already. -/
theorem Grows.holds_of_resolved (h : Grows catalog memory after)
    (hcoherent : Coherent catalog memory) (ha : Holds catalog after a)
    (hresolved : memory.definition a = .resolved outcome) : Holds catalog memory a := by
  obtain ⟨hdeferred, hknown⟩ := Memory.definition_eq_resolved_iff.mp hresolved
  rcases h.held a ha with hold | hwhole | hid
  · exact hold
  · exact absurd hwhole hdeferred
  · rw [hcoherent.unknown hid] at hknown
    cases hknown

theorem holds_of_resolve (hnode : Holds catalog memory node)
    (hrun : (catalog.resolve node word).run memory = (some a, after)) : Holds catalog after a := by
  rcases settled_of_resolve hrun with ⟨-, ⟨rfl⟩⟩ | ⟨-, hknown⟩
  · exact hnode.mono (extends_of_resolve hrun)
  · exact (Tree.outcome hknown).holds

theorem holds_of_loadRoot (hrun : (catalog.loadRoot word).run memory = (some a, after)) :
    Holds catalog after a :=
  (Tree.root ((loadRoot_cases hrun).2 a rfl).2).holds

/-- What is held after a node was resolved was held before, or belongs to the
result. -/
theorem holds_resolve (hrun : (catalog.resolve node word).run memory = (outcome, after))
    (ha : Holds catalog after a) : Holds catalog memory a ∨ Within outcome a := by
  cases resolves_of_resolve hrun with
  | whole | known => exact .inl ha
  | loaded _ _ hfragment =>
    obtain ⟨houtcomes, hroots⟩ := loadFragment_outcomes hfragment
    rcases holds_settle ha with hold | hwithin
    · exact .inl (hold.mono (.of_eq houtcomes.symm hroots.symm))
    · exact .inr hwithin

/-- **Resolving a node in use.** The collection of nodes is identified afterwards by
`identified_of_resolve`; what is new in it is the overlay, which is whole, or was loaded and so got
new identities. -/
theorem grows_of_resolve (hcoherent : Coherent catalog memory) (hnode : Holds catalog memory node)
    (hrun : (catalog.resolve node word).run memory = (outcome, after)) :
    Grows catalog memory after := by
  have hafter := identified_of_resolve hcoherent (fun _ h => h) (fun _ h => hnode.part h) hrun
  refine ⟨extends_of_resolve hrun, ?_, fun a ha => ?_, hafter.mono fun a => holds_resolve hrun⟩
  · cases resolves_of_resolve hrun with
    | whole | known => exact Nat.le_refl _
    | loaded _ _ hfragment => exact (findsFragment_of_loadFragment hfragment).next_le
  · rcases holds_resolve hrun ha with hold | hwithin
    · exact .inl hold
    · cases resolves_of_resolve hrun with
      | whole | known => exact .inl ha
      | loaded hloader _ hfragment =>
        have hfinds := findsFragment_of_loadFragment hfragment
        rcases within_of_resolves hloader hfinds hwithin with
          hwhole | ⟨child, hchild, hpart⟩ | ⟨grammar, -, -, hnew⟩
        · exact .inr (.inl hwhole)
        -- It stood below the node or below the fragment the node carries, and both were in use.
        · refine .inl ((hnode.part ?_).part hpart)
          rcases hchild with hchild | hcarried
          · exact Node.mem_parts_of_mem_children hchild
          · exact Node.mem_parts_iff.mpr (.inr (.inr ⟨child, hcarried, child.self_mem_parts⟩))
        · exact .inr (.inr (Node.mem_number_parts hnew).1)

/-- Resolving a node tells nothing about any other. This is where identities are needed to be
unique: the outcome is remembered under one of them. -/
theorem definition_of_resolve (hcoherent : Coherent catalog memory)
    (hnode : Holds catalog memory node)
    (hrun : (catalog.resolve node word).run memory = (outcome, after))
    (ha : Holds catalog after a) (hne : a ≠ node) :
    after.definition a = memory.definition a := by
  have hgrows := grows_of_resolve hcoherent hnode hrun
  refine Memory.definition_congr fun hdeferred => ?_
  cases resolves_of_resolve hrun with
  | whole | known => rfl
  | @loaded loader fragment? loaded hloader _ hfragment =>
    -- Another deferred node has another identity, so what is settled is not its.
    have hid : a.id ≠ node.id := by
      intro hid
      have hdeferred' : node.loader ≠ none := by rw [hloader]; exact Option.some_ne_none _
      have hnode' := hnode.mono hgrows.extended
      exact hne (hgrows.coherent.same a node ha hnode' hdeferred hdeferred' hid)
    rw [Memory.lookup_settle, if_neg hid, (loadFragment_outcomes hfragment).1]

/-! ### Commands -/

variable {grammar : Grammar} {world : σ} {settled : Memory σ}

/-- The memory in which the document of a command has got its identities. -/
def adopted (memory : Memory σ) (grammar : Grammar) (world : σ) : Memory σ :=
  { memory with world := world, next := (grammar.number memory.next).2 }

/-- What is in use after a document was resolved is either not new or belongs to
the result. -/
theorem holds_supplied
    (hresolved : (catalog.resolve (grammar.number memory.next).1 word).run
      (adopted memory grammar world) = (outcome, settled))
    (ha : Holds catalog (settled.keep word outcome) a) :
    Holds catalog memory a ∨ Within outcome a := by
  have hsame : (adopted memory grammar world).Extends memory := .of_eq rfl rfl
  rcases holds_keep ha with hsettled | hwithin
  · exact (holds_resolve hresolved hsettled).imp_left fun hold => hold.mono hsame
  · exact .inr hwithin

/-- The result of a document has identities of its own; those of its deferred nodes come after the
document's, if that was deferred. The three cases are the ways to resolve it, and the second cannot
happen: nothing is known under an identity that was just given. -/
theorem id_of_supplied (hcoherent : Coherent catalog memory)
    (hresolved : (catalog.resolve (grammar.number memory.next).1 word).run
      (adopted memory grammar world) = (outcome, settled))
    (hwithin : Within outcome a) :
    a.loader = none ∨ memory.next < a.id ∨
      (memory.next ≤ a.id ∧ (grammar.number memory.next).1.loader = none) := by
  cases resolves_of_resolve hresolved with
  | whole hwhole =>
    obtain ⟨_, ⟨rfl⟩, hmem⟩ := hwithin
    exact .inr (.inr ⟨(Node.mem_number_parts hmem).1, hwhole⟩)
  | known _ hknown =>
    have hunknown := hcoherent.unknown (Nat.le_of_eq (Node.number_id grammar memory.next).symm)
    rw [show memory.outcomes.lookup (grammar.number memory.next).1.id = some outcome from hknown]
      at hunknown
    cases hunknown
  | loaded hloader _ hfragment =>
    have hfinds := findsFragment_of_loadFragment hfragment
    rcases within_of_resolves hloader hfinds hwithin with
      hwhole | ⟨child, hchild, hpart⟩ | ⟨_, -, -, hnew⟩
    · exact .inl hwhole
    · rcases hchild with hchild | hcarried
      · exact .inr (.inl (Node.next_lt_of_mem_children hchild hpart))
      · exact .inr (.inl (Node.next_lt_of_carried hcarried hpart))
    · have hnext := Node.next_lt_number grammar memory.next
      exact .inr (.inl (Nat.lt_of_lt_of_le hnext (Node.mem_number_parts hnew).1))

/-- The document of a command and all that is in use can be told apart. -/
theorem Coherent.adopted (hcoherent : Coherent catalog memory) (grammar : Grammar) (world : σ) :
    Identified (fun a => Holds catalog (Catalog.adopted memory grammar world) a ∨
      a ∈ (grammar.number memory.next).1.parts) (Catalog.adopted memory grammar world) := by
  have hsame : (Catalog.adopted memory grammar world).Extends memory := .of_eq rfl rfl
  have hadopted : Identified _ (Catalog.adopted memory grammar world) :=
    hcoherent.adopt grammar world
  exact hadopted.mono fun a ha => ha.imp_left fun hold => hold.mono hsame

/-- **Loading a command.** What can happen is one of the four ways of `LoadsRoot`; only the last
brings nodes into use, those of the document after it was resolved. -/
theorem grows_of_loadRoot (hcoherent : Coherent catalog memory)
    (hrun : (catalog.loadRoot word).run memory = (outcome, after)) :
    Grows catalog memory after := by
  have hextends := extends_of_loadRoot hrun
  cases loadsRoot_of_loadRoot hrun with
  | unlisted | known => exact .refl hcoherent
  | @missing _ world =>
    have hsame : ({ memory with world := world } : Memory σ).Extends memory := .of_eq rfl rfl
    have hafter : Identified (Holds catalog memory) { memory with world := world } :=
      hcoherent.of_eq rfl rfl
    exact ⟨hextends, Nat.le_refl _, fun a ha => .inl (ha.mono hsame),
      hafter.mono fun a ha => ha.mono hsame⟩
  | @supplied answer world grammar _ settled _ _ _ _ hresolved =>
    have hidentified := identified_of_resolve (hcoherent.adopted grammar world)
      (fun _ => .inl) (fun _ => .inr) hresolved
    have hnext : memory.next ≤ settled.next := by
      have hbelow := Nat.le_of_lt (Node.next_lt_number grammar memory.next)
      cases resolves_of_resolve hresolved with
      | whole | known => exact hbelow
      | loaded _ _ hfragment =>
        exact Nat.le_trans hbelow (findsFragment_of_loadFragment hfragment).next_le
    have hkept : Identified _ (settled.keep word outcome) :=
      hidentified.of_eq (Memory.next_keep ..) (Memory.outcomes_keep ..)
    refine ⟨hextends, by rw [Memory.next_keep]; exact hnext, fun a ha => ?_, hkept.mono ?_⟩
    · rcases holds_supplied hresolved ha with hold | hwithin
      · exact .inl hold
      · rcases id_of_supplied hcoherent hresolved hwithin with hwhole | hlt | ⟨hle, -⟩
        · exact .inr (.inl hwhole)
        · exact .inr (.inr (Nat.le_of_lt hlt))
        · exact .inr (.inr hle)
    · intro a ha
      have hsame : memory.Extends (Catalog.adopted memory grammar world) := .of_eq rfl rfl
      rcases holds_supplied hresolved ha with hold | hwithin
      · exact .inl (.inl (hold.mono hsame))
      · exact .inr hwithin

/-- Loading a command tells nothing about any node in use, not even about those that come into use
with it: they are as unresolved afterwards as the document had them. -/
theorem definition_of_loadRoot (hcoherent : Coherent catalog memory)
    (hrun : (catalog.loadRoot word).run memory = (outcome, after))
    (ha : Holds catalog after a) : after.definition a = memory.definition a := by
  refine Memory.definition_congr fun hdeferred => ?_
  cases loadsRoot_of_loadRoot hrun with
  | unlisted | known | missing => rfl
  | @supplied answer world grammar _ settled _ _ _ _ hresolved =>
    rw [Memory.outcomes_keep]
    -- If the document itself was deferred, an outcome is kept for its identity,
    -- which no node in use has: those of the result come after it.
    have hsettled := resolves_of_resolve hresolved
    cases hsettled with
    | whole | known => rfl
    | @loaded loader fragment? loaded hloader _ hfragment =>
      have hid : a.id ≠ (grammar.number memory.next).1.id := by
        rw [Node.number_id]
        rcases holds_supplied hresolved ha with hold | hwithin
        · exact Nat.ne_of_lt (hcoherent.below a hold)
        · rcases id_of_supplied hcoherent hresolved hwithin with hwhole | hlt | ⟨-, hwhole⟩
          · exact absurd hwhole hdeferred
          · exact Nat.ne_of_gt hlt
          · rw [hloader] at hwhole
            cases hwhole
      rw [Memory.lookup_settle, if_neg hid, (loadFragment_outcomes hfragment).1]

end Catalog

end CommandCompletion
