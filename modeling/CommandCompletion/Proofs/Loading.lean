/-
What loading yields, whatever the catalog remembers.

A catalog gives identities to all it loads and remembers what came of it.
`fragment?`, `whole?` and `commandGrammar?` say what is loaded without any of
that: they only run what lies outside. A lookup that finds nothing remembered
answers like them and leaves the outside as they do (`run_whole?_of_resolve`,
`run_commandGrammar?_of_loadRoot`).

How a fragment is found, with the identities it gets, is `FindsFragment`.
-/
import CommandCompletion.Proofs.NodeParts
import CommandCompletion.Proofs.Remembering

set_option autoImplicit false

namespace CommandCompletion

namespace Catalog

variable {σ ι : Type}

/-! ## Without remembering -/

/-- The fragment that a loader yields for a word: carried along, read from the catalog, or generated
(specification, § 4.1). The identities of a carried fragment are left out, so that the answer is the
same kind of grammar in all three cases. -/
def fragment? (catalog : Catalog σ) (word : String) : Loader (Node ι) → StateM σ (Option Grammar)
  | .inline fragment => return some fragment.plain
  | .reference key => supplied? <$> catalog.loadReference key
  | .generator name => catalog.generate? name word

/-- The whole of a node that was named by a word: the node itself, or its fragment laid over it.
This is `resolve` with the memory taken away, and shares no code with it. -/
def whole? (catalog : Catalog σ) (word : String) (node : Node ι) : StateM σ (Option Grammar) :=
  match node.loader with
  | none => return some node.plain
  | some loader => Option.map node.plain.overlay <$> catalog.fragment? word loader

/-- The grammar of a command. -/
def commandGrammar? (catalog : Catalog σ) (name : String) : StateM σ (Option Grammar) := do
  if !catalog.rootNames.contains name then return none
  match supplied? (← catalog.loadReference name) with
  | none => return none
  | some grammar => catalog.whole? name grammar

variable {catalog : Catalog σ} {word : String} {node : CatalogNode}

/-- Identities play no part in what is loaded. -/
theorem fragment?_plain (loader : Loader (Node ι)) :
    catalog.fragment? word loader.plain = catalog.fragment? word loader := by
  cases loader with
  | inline fragment =>
    show (pure (some fragment.plain.plain) : StateM σ _) = pure (some fragment.plain)
    rw [Node.plain_grammar]
  | reference | generator => rfl

theorem whole?_plain (node : Node ι) :
    catalog.whole? word node.plain = catalog.whole? word node := by
  unfold whole?
  rw [Node.loader_plain, Node.plain_grammar]
  cases node.loader with
  | none => rfl
  | some loader =>
    rw [Option.map_some]
    dsimp only
    rw [fragment?_plain]

/-- The grammar of all commands, as it was before it got identities: numbering changes nothing else.
-/
theorem rootNode_plain (catalog : Catalog σ) : catalog.rootNode.plain = catalog.rootGrammar :=
  (Node.numbered catalog.rootGrammar 0).plain

/-! ## Finding a fragment -/

variable {memory after loaded : Memory σ} {outcome found? : Option CatalogNode}

/-- How a fragment can be found: it is carried along, or something outside was asked for it, and a
grammar that came is given identities. The three kinds of loaders come down to these cases; which of
the two that ask it was matters for `fragment?` alone. -/
inductive FindsFragment (catalog : Catalog σ) (word : String) (memory : Memory σ) :
    Loader CatalogNode → Option CatalogNode → Memory σ → Prop where
  | carried (fragment : CatalogNode) :
      FindsFragment catalog word memory (.inline fragment) (some fragment) memory
  | missing {loader : Loader CatalogNode} {world : σ} (habsent : ∀ fragment, loader ≠ .inline fragment)
      (hasked : (catalog.fragment? word loader).run memory.world = (none, world)) :
      FindsFragment catalog word memory loader none { memory with world := world }
  | adopted {loader : Loader CatalogNode} {grammar : Grammar} {world : σ}
      (habsent : ∀ fragment, loader ≠ .inline fragment)
      (hasked : (catalog.fragment? word loader).run memory.world = (some grammar, world)) :
      FindsFragment catalog word memory loader (some (grammar.number memory.next).1)
        { memory with world := world, next := (grammar.number memory.next).2 }

theorem findsFragment_of_loadFragment {loader : Loader CatalogNode}
    (h : (catalog.loadFragment word loader).run memory = (found?, loaded)) :
    FindsFragment catalog word memory loader found? loaded := by
  cases loader with
  | inline fragment =>
    cases h
    exact .carried fragment
  | reference key =>
    obtain ⟨⟨answer, world⟩, hsource⟩ : ∃ result,
        (catalog.loadReference key).run memory.world = result := ⟨_, rfl⟩
    have hasked : (catalog.fragment? word (.reference key : Loader CatalogNode)).run
        memory.world = (supplied? answer, world) := by
      show (supplied? ((catalog.loadReference key).run memory.world).1,
        ((catalog.loadReference key).run memory.world).2) = _
      rw [hsource]
    unfold loadFragment at h
    dsimp only at h
    rw [Recall.run_bind_of (Recall.run_outside hsource)] at h
    -- An answer that holds no grammar, or a failure, comes to the same: nothing was found.
    cases hsupplied : supplied? answer with
    | none =>
      rw [hsupplied] at h hasked
      cases h
      exact .missing (by rintro fragment ⟨⟩) hasked
    | some grammar =>
      rw [hsupplied] at h hasked
      cases h
      exact .adopted (by rintro fragment ⟨⟩) hasked
  -- A generator answers with a grammar or with none, its failures included.
  | generator name =>
    obtain ⟨⟨generated?, world⟩, hasked⟩ : ∃ result,
        (catalog.generate? name word).run memory.world = result := ⟨_, rfl⟩
    unfold loadFragment at h
    dsimp only at h
    rw [Recall.run_bind_of (Recall.run_outside hasked)] at h
    cases generated? with
    | none =>
      cases h
      exact .missing (by rintro fragment ⟨⟩) hasked
    | some grammar =>
      cases h
      exact .adopted (by rintro fragment ⟨⟩) hasked

/-- What is found, and what happened outside. -/
theorem FindsFragment.run_eq {loader : Loader CatalogNode}
    (h : FindsFragment catalog word memory loader found? loaded) :
    (catalog.fragment? word loader).run memory.world = (found?.map Node.plain, loaded.world) := by
  cases h with
  | carried fragment => rfl
  | missing _ hasked => exact hasked
  | adopted _ hasked => rw [hasked, Option.map_some, (Node.numbered _ _).plain]

/-! ## Looking up what is not remembered -/

theorem run_whole?_of_loader {node : Node ι} {loader : Loader (Node ι)}
    (hloader : node.loader = some loader) {world : σ} :
    (catalog.whole? word node).run world =
      (((catalog.fragment? word loader).run world).1.map node.plain.overlay,
        ((catalog.fragment? word loader).run world).2) := by
  unfold whole?
  rw [hloader]
  rfl

/-- **A node that is not remembered is resolved as if nothing was.** By the three ways to resolve: a
known outcome is excluded, and laying a fragment over a node commutes with forgetting identities
(`Node.overlay_plain`). -/
theorem run_whole?_of_resolve (h : (catalog.resolve node word).run memory = (outcome, after))
    (hunknown : memory.outcomes.lookup node.id = none) :
    (catalog.whole? word node).run memory.world = (outcome.map Node.plain, after.world) := by
  cases resolves_of_resolve h with
  | whole hwhole =>
    unfold whole?
    rw [hwhole]
    rfl
  | known _ hknown =>
    rw [hunknown] at hknown
    cases hknown
  | @loaded loader fragment? loaded hloader _ hfragment =>
    have hrun := (findsFragment_of_loadFragment hfragment).run_eq
    -- Both sides lay the same fragment over the node, one before and one after forgetting
    -- identities.
    have hplain : (fragment?.map Node.plain).map node.plain.overlay =
        (fragment?.map node.overlay).map Node.plain := by
      cases fragment? with
      | none => rfl
      | some fragment => exact congrArg some (Node.overlay_plain node fragment).symm
    rw [run_whole?_of_loader hloader, hrun, hplain]
    rfl

theorem run_commandGrammar?_of_unlisted (hunlisted : catalog.rootNames.contains word = false)
    {world : σ} : (catalog.commandGrammar? word).run world = (none, world) := by
  unfold commandGrammar?
  rw [hunlisted]
  rfl

theorem run_commandGrammar?_of_listed (hlisted : catalog.rootNames.contains word = true)
    {answer : Except Failure (Option Supply)} {world asked : σ}
    (hsource : (catalog.loadReference word).run world = (answer, asked)) :
    (catalog.commandGrammar? word).run world =
      match supplied? answer with
      | none => (none, asked)
      | some grammar => (catalog.whole? word grammar).run asked := by
  unfold commandGrammar?
  rw [if_neg (by rw [hlisted]; exact Bool.false_ne_true), StateT.run_bind, hsource]
  show StateT.run (match supplied? answer with
    | none => pure none
    | some grammar => catalog.whole? word grammar) asked = _
  cases supplied? answer <;> rfl

/-- **A command that is not remembered is loaded as if nothing was.** The identity that its document
gets must be new, since the document can be deferred itself, and would otherwise be taken for a node
that was resolved before. -/
theorem run_commandGrammar?_of_loadRoot
    (h : (catalog.loadRoot word).run memory = (outcome, after))
    (hunknown : memory.roots.lookup word = none)
    (hnew : memory.outcomes.lookup memory.next = none) :
    (catalog.commandGrammar? word).run memory.world = (outcome.map Node.plain, after.world) := by
  -- A command that is known is excluded; the other three cases ask as one that remembers nothing
  -- asks.
  cases loadsRoot_of_loadRoot h with
  | unlisted hunlisted => exact run_commandGrammar?_of_unlisted hunlisted
  | known _ hknown =>
    rw [hunknown] at hknown
    cases hknown
  | missing hlisted _ hsource hmissing =>
    rw [run_commandGrammar?_of_listed hlisted hsource, hmissing]
    rfl
  | @supplied answer world grammar _ settled hlisted _ hsource hsupplied hresolved =>
    have hwhole := run_whole?_of_resolve hresolved (by rw [Node.number_id]; exact hnew)
    rw [run_commandGrammar?_of_listed hlisted hsource, hsupplied, Memory.world_keep, ← hwhole]
    dsimp only
    rw [← whole?_plain (grammar.number memory.next).1, (Node.numbered _ _).plain]

end Catalog

end CommandCompletion
