/-
What a catalog remembers only grows.

How a node can be resolved is `Resolves`, and how a command can be loaded is
`LoadsRoot`: one case for each way, with the memory that it leaves. All that is
said about lookups is said case by case.

`Memory.Extends before after` says that every outcome and every grammar of a
command that `before` holds is in `after` too, unchanged. Each operation of the
catalog answers with a memory that extends the one it was given.

The use of it is replay. A lookup that came to something once comes to the same
in every later memory, and costs nothing there: neither the source nor a
generator is asked again, so the memory stays as it is. The one exception is the
grammar of a command that could not be loaded, which leaves no trace and is
tried again; `loadRoot` is replayed only where it succeeded.
-/
import CommandCompletion.Catalog

set_option autoImplicit false

namespace CommandCompletion

/-! ## Computations one after the other -/

namespace Recall

variable {σ α β : Type} {first : Recall σ α} {next : α → Recall σ β}
variable {memory middle : Memory σ}

/-- A computation of two parts passes through a memory between them. -/
theorem exists_of_run_bind {result : β × Memory σ} (h : (first >>= next).run memory = result) :
    ∃ value middle, first.run memory = (value, middle) ∧ (next value).run middle = result :=
  ⟨_, _, rfl, h⟩

/-- The other way round: what the first part answers is handed to the second. Runs of the catalog
are computed with this lemma, one collaborator after the other. -/
theorem run_bind_of {value : α} (h : first.run memory = (value, middle)) :
    (first >>= next).run memory = (next value).run middle := by
  rw [StateT.run_bind, h]
  rfl

/-- What happens outside changes nothing else. -/
theorem run_outside {action : StateM σ α} {result : α} {world : σ}
    (h : action.run memory.world = (result, world)) :
    (outside action).run memory = (result, { memory with world := world }) := by
  show ((action.run memory.world).1, { memory with world := (action.run memory.world).2 }) = _
  rw [h]

end Recall

/-! ## Growth -/

namespace Memory

variable {σ : Type}

/-- Everything that `before` holds is in `after` too: outcomes of deferred nodes and grammars of
commands, each under the key it had. Nothing is said of the outside or of the identities that are
left, since a lookup that is repeated does not look at either. -/
structure Extends (before after : Memory σ) : Prop where
  outcomes : ∀ id outcome, before.outcomes.lookup id = some outcome →
    after.outcomes.lookup id = some outcome
  roots : ∀ name node, before.roots.lookup name = some node →
    after.roots.lookup name = some node

variable {before middle after : Memory σ}

theorem Extends.refl (memory : Memory σ) : memory.Extends memory :=
  ⟨fun _ _ h => h, fun _ _ h => h⟩

theorem Extends.trans (h : before.Extends middle) (h' : middle.Extends after) :
    before.Extends after :=
  ⟨fun id outcome hbefore => h'.outcomes id outcome (h.outcomes id outcome hbefore),
    fun name node hbefore => h'.roots name node (h.roots name node hbefore)⟩

/-- A memory with the same outcomes and the same commands extends the other,
whatever happened outside. -/
theorem Extends.of_eq (houtcomes : after.outcomes = before.outcomes)
    (hroots : after.roots = before.roots) : before.Extends after := by
  refine ⟨fun id outcome h => ?_, fun name node h => ?_⟩
  · rw [houtcomes]
    exact h
  · rw [hroots]
    exact h

/-- The memory with what came of the loader of a node. -/
def settle (memory : Memory σ) (id : Nat) (outcome : Option CatalogNode) : Memory σ :=
  { memory with outcomes := (id, outcome) :: memory.outcomes }

/-- The memory with the grammar of a command, if there is one to remember. -/
def keep (memory : Memory σ) (name : String) : Option CatalogNode → Memory σ
  | none => memory
  | some root => { memory with roots := (name, root) :: memory.roots }

theorem lookup_settle (memory : Memory σ) (id other : Nat) (outcome : Option CatalogNode) :
    (memory.settle id outcome).outcomes.lookup other =
      if other = id then some outcome else memory.outcomes.lookup other := by
  show List.lookup other ((id, outcome) :: memory.outcomes) = _
  rw [List.lookup_cons]
  by_cases h : other = id
  · rw [if_pos h, beq_iff_eq.mpr h]
  · rw [if_neg h, beq_eq_false_iff_ne.mpr h]

theorem lookup_keep (memory : Memory σ) (name other : String) (root : CatalogNode) :
    (memory.keep name (some root)).roots.lookup other =
      if other = name then some root else memory.roots.lookup other := by
  show List.lookup other ((name, root) :: memory.roots) = _
  rw [List.lookup_cons]
  by_cases h : other = name
  · rw [if_pos h, beq_iff_eq.mpr h]
  · rw [if_neg h, beq_eq_false_iff_ne.mpr h]

@[simp] theorem outcomes_keep (memory : Memory σ) (name : String) (root? : Option CatalogNode) :
    (memory.keep name root?).outcomes = memory.outcomes := by
  cases root? <;> rfl

@[simp] theorem next_keep (memory : Memory σ) (name : String) (root? : Option CatalogNode) :
    (memory.keep name root?).next = memory.next := by
  cases root? <;> rfl

@[simp] theorem world_keep (memory : Memory σ) (name : String) (root? : Option CatalogNode) :
    (memory.keep name root?).world = memory.world := by
  cases root? <;> rfl

end Memory

namespace Catalog

variable {σ : Type} {catalog : Catalog σ} {memory after later : Memory σ}
variable {node root : CatalogNode} {word : String} {outcome : Option CatalogNode}

/-! ## Deferred nodes -/

/-- A fragment is found without touching what is remembered; only the outside and the identities
that are left may change. So whatever a loader does, what is remembered grows by its outcome alone.
-/
theorem loadFragment_outcomes {loader : Loader CatalogNode}
    (h : (catalog.loadFragment word loader).run memory = (outcome, after)) :
    after.outcomes = memory.outcomes ∧ after.roots = memory.roots := by
  cases loader with
  | inline fragment =>
    cases h
    exact ⟨rfl, rfl⟩
  | reference key =>
    obtain ⟨supply, middle, hsupply, h⟩ := Recall.exists_of_run_bind h
    cases hsupply
    split at h <;> (cases h; exact ⟨rfl, rfl⟩)
  | generator name =>
    obtain ⟨grammar, middle, hgrammar, h⟩ := Recall.exists_of_run_bind h
    cases hgrammar
    split at h <;> (cases h; exact ⟨rfl, rfl⟩)

theorem resolve_of_whole (hwhole : node.loader = none) :
    (catalog.resolve node word).run memory = (some node, memory) := by
  unfold resolve
  rw [hwhole]
  rfl

/-- What is remembered is all that a catalog needs to know: this holds of every
one, whatever it would load. -/
theorem resolve_of_known (hdeferred : node.loader ≠ none)
    (hknown : memory.outcomes.lookup node.id = some outcome) :
    (catalog.resolve node word).run memory = (outcome, memory) := by
  obtain ⟨loader, hloader⟩ := Option.ne_none_iff_exists'.mp hdeferred
  have houtcome : (Recall.outcome? node.id).run memory = (some outcome, memory) :=
    congrArg (·, memory) hknown
  unfold resolve
  rw [hloader]
  dsimp only
  rw [Recall.run_bind_of houtcome]
  rfl

theorem resolve_of_unknown {loader : Loader CatalogNode} {fragment? : Option CatalogNode}
    {loaded : Memory σ} (hloader : node.loader = some loader)
    (hunknown : memory.outcomes.lookup node.id = none)
    (hfragment : (catalog.loadFragment word loader).run memory = (fragment?, loaded)) :
    (catalog.resolve node word).run memory =
      (fragment?.map node.overlay, loaded.settle node.id (fragment?.map node.overlay)) := by
  have houtcome : (Recall.outcome? node.id).run memory = (none, memory) :=
    congrArg (·, memory) hunknown
  unfold resolve
  rw [hloader]
  dsimp only
  rw [Recall.run_bind_of houtcome]
  dsimp only
  rw [Recall.run_bind_of hfragment]
  rfl

/-- How resolving a node can go: it was whole, its outcome was known, or its loader was run and the
outcome is remembered, a failure included (specification, § 4.1: at most once per node, cached in
place). All later proofs about `resolve` are by these three cases. -/
inductive Resolves (catalog : Catalog σ) (node : CatalogNode) (word : String)
    (memory : Memory σ) : Option CatalogNode → Memory σ → Prop where
  | whole (hwhole : node.loader = none) : Resolves catalog node word memory (some node) memory
  | known {outcome : Option CatalogNode} (hdeferred : node.loader ≠ none)
      (hknown : memory.outcomes.lookup node.id = some outcome) :
      Resolves catalog node word memory outcome memory
  | loaded {loader : Loader CatalogNode} {fragment? : Option CatalogNode} {loaded : Memory σ}
      (hloader : node.loader = some loader)
      (hunknown : memory.outcomes.lookup node.id = none)
      (hfragment : (catalog.loadFragment word loader).run memory = (fragment?, loaded)) :
      Resolves catalog node word memory (fragment?.map node.overlay)
        (loaded.settle node.id (fragment?.map node.overlay))

theorem resolves_of_resolve (h : (catalog.resolve node word).run memory = (outcome, after)) :
    Resolves catalog node word memory outcome after := by
  cases hloader : node.loader with
  | none =>
    rw [resolve_of_whole hloader] at h
    cases h
    exact .whole hloader
  | some loader =>
    have hdeferred : node.loader ≠ none := by rw [hloader]; exact Option.some_ne_none _
    cases hlookup : memory.outcomes.lookup node.id with
    | some found =>
      rw [resolve_of_known hdeferred hlookup] at h
      cases h
      exact .known hdeferred hlookup
    | none =>
      obtain ⟨⟨fragment?, loaded⟩, hfragment⟩ : ∃ result,
          (catalog.loadFragment word loader).run memory = result := ⟨_, rfl⟩
      rw [resolve_of_unknown hloader hlookup hfragment] at h
      cases h
      exact .loaded hloader hlookup hfragment

/-- After it was resolved, a node is whole or its outcome is remembered. This is the one fact on
which replay rests: the third way to resolve turns into the second. -/
theorem settled_of_resolve (h : (catalog.resolve node word).run memory = (outcome, after)) :
    (node.loader = none ∧ outcome = some node) ∨
      (node.loader ≠ none ∧ after.outcomes.lookup node.id = some outcome) := by
  cases resolves_of_resolve h with
  | whole hwhole => exact .inl ⟨hwhole, rfl⟩
  | known hdeferred hknown => exact .inr ⟨hdeferred, hknown⟩
  | loaded hloader =>
    refine .inr ⟨by rw [hloader]; exact Option.some_ne_none _, ?_⟩
    rw [Memory.lookup_settle, if_pos rfl]

/-- An outcome that was not remembered for an identity can be put there. The condition is what keeps
growth from being overwriting: look-ups find the first entry for a key. -/
theorem extends_settle {settled : Memory σ} {id : Nat} (hextends : memory.Extends settled)
    (hunknown : memory.outcomes.lookup id = none) :
    memory.Extends (settled.settle id outcome) := by
  refine ⟨fun other found hfound => ?_, hextends.roots⟩
  -- What was found before was found under another identity.
  have hne : other ≠ id := by
    rintro rfl
    rw [hunknown] at hfound
    cases hfound
  rw [Memory.lookup_settle, if_neg hne]
  exact hextends.outcomes _ _ hfound

theorem extends_of_resolve (h : (catalog.resolve node word).run memory = (outcome, after)) :
    memory.Extends after := by
  cases resolves_of_resolve h with
  | whole | known => exact .refl _
  | loaded _ hunknown hfragment =>
    obtain ⟨houtcomes, hroots⟩ := loadFragment_outcomes hfragment
    exact extends_settle (.of_eq houtcomes hroots) hunknown

/-- A node that was resolved once is resolved for good, whichever word names it later and whichever
catalog is asked. The catalog can be any because neither of the first two ways asks it anything. -/
theorem resolve_replay (h : (catalog.resolve node word).run memory = (outcome, after))
    (hlater : after.Extends later) (any : Catalog σ) (other : String) :
    (any.resolve node other).run later = (outcome, later) := by
  obtain ⟨hwhole, rfl⟩ | ⟨hdeferred, hknown⟩ := settled_of_resolve h
  · exact resolve_of_whole hwhole
  · exact resolve_of_known hdeferred (hlater.outcomes _ _ hknown)

theorem extends_of_resolveChild {parent : CatalogNode}
    (h : (catalog.resolveChild parent word).run memory = (outcome, after)) :
    memory.Extends after := by
  unfold resolveChild at h
  split at h
  · exact extends_of_resolve h
  · cases h
    exact .refl _

/-- A child that was looked for once is found again, or missing again. -/
theorem resolveChild_replay {parent : CatalogNode}
    (h : (catalog.resolveChild parent word).run memory = (outcome, after))
    (hlater : after.Extends later) :
    (catalog.resolveChild parent word).run later = (outcome, later) := by
  unfold resolveChild at h ⊢
  split at h
  · exact resolve_replay h hlater catalog word
  · cases h
    rfl

/-! ## Commands -/

theorem loadRoot_of_unlisted (hunlisted : catalog.rootNames.contains word = false) :
    (catalog.loadRoot word).run memory = (none, memory) := by
  unfold loadRoot
  rw [hunlisted]
  rfl

theorem loadRoot_of_known (hlisted : catalog.rootNames.contains word = true)
    (hknown : memory.roots.lookup word = some root) :
    (catalog.loadRoot word).run memory = (some root, memory) := by
  have hroot : (Recall.root? word).run memory = (some root, memory) :=
    congrArg (·, memory) hknown
  unfold loadRoot
  rw [if_neg (by rw [hlisted]; exact Bool.false_ne_true), Recall.run_bind_of hroot]
  rfl

section Unknown

variable {answer : Except Failure (Option Supply)} {world : σ}
  (hlisted : catalog.rootNames.contains word = true)
  (hunknown : memory.roots.lookup word = none)
  (hsource : (catalog.loadReference word).run memory.world = (answer, world))

include hlisted hunknown hsource

theorem loadRoot_of_missing (hmissing : supplied? answer = none) :
    (catalog.loadRoot word).run memory = (none, { memory with world := world }) := by
  -- The three questions in the order in which they are asked: is the command listed, is it
  -- remembered, what does the source say.
  have hroot : (Recall.root? word).run memory = (none, memory) := congrArg (·, memory) hunknown
  unfold loadRoot
  rw [if_neg (by rw [hlisted]; exact Bool.false_ne_true), Recall.run_bind_of hroot]
  dsimp only
  rw [Recall.run_bind_of (Recall.run_outside hsource), hmissing]
  rfl

theorem loadRoot_of_supplied {grammar : Grammar} {settled : Memory σ}
    (hsupplied : supplied? answer = some grammar)
    (hresolved : (catalog.resolve (grammar.number memory.next).1 word).run
      { memory with world := world, next := (grammar.number memory.next).2 } =
        (outcome, settled)) :
    (catalog.loadRoot word).run memory = (outcome, settled.keep word outcome) := by
  have hroot : (Recall.root? word).run memory = (none, memory) := congrArg (·, memory) hunknown
  have hadopted : (Recall.adopt grammar).run { memory with world := world } =
      ((grammar.number memory.next).1,
        { memory with world := world, next := (grammar.number memory.next).2 }) := rfl
  unfold loadRoot
  rw [if_neg (by rw [hlisted]; exact Bool.false_ne_true), Recall.run_bind_of hroot]
  dsimp only
  rw [Recall.run_bind_of (Recall.run_outside hsource), hsupplied]
  dsimp only
  rw [Recall.run_bind_of hadopted, Recall.run_bind_of hresolved]
  cases outcome <;> rfl

end Unknown

/-- How loading a command can go. The order of the questions shows in the hypotheses: what is not
listed is never looked for, and the source is asked for what is not remembered only. A root is
remembered under its name only where there is one (`Memory.keep`), so a failed load can be tried
again. -/
inductive LoadsRoot (catalog : Catalog σ) (name : String) (memory : Memory σ) :
    Option CatalogNode → Memory σ → Prop where
  | unlisted (hunlisted : catalog.rootNames.contains name = false) :
      LoadsRoot catalog name memory none memory
  | known {root : CatalogNode} (hlisted : catalog.rootNames.contains name = true)
      (hknown : memory.roots.lookup name = some root) :
      LoadsRoot catalog name memory (some root) memory
  | missing {answer : Except Failure (Option Supply)} {world : σ}
      (hlisted : catalog.rootNames.contains name = true)
      (hunknown : memory.roots.lookup name = none)
      (hsource : (catalog.loadReference name).run memory.world = (answer, world))
      (hmissing : supplied? answer = none) :
      LoadsRoot catalog name memory none { memory with world := world }
  | supplied {answer : Except Failure (Option Supply)} {world : σ} {grammar : Grammar}
      {outcome : Option CatalogNode} {settled : Memory σ}
      (hlisted : catalog.rootNames.contains name = true)
      (hunknown : memory.roots.lookup name = none)
      (hsource : (catalog.loadReference name).run memory.world = (answer, world))
      (hsupplied : supplied? answer = some grammar)
      (hresolved : (catalog.resolve (grammar.number memory.next).1 name).run
        { memory with world := world, next := (grammar.number memory.next).2 } =
          (outcome, settled)) :
      LoadsRoot catalog name memory outcome (settled.keep name outcome)

theorem loadsRoot_of_loadRoot (h : (catalog.loadRoot word).run memory = (outcome, after)) :
    LoadsRoot catalog word memory outcome after := by
  cases hlisted : catalog.rootNames.contains word with
  | false =>
    rw [loadRoot_of_unlisted hlisted] at h
    cases h
    exact .unlisted hlisted
  | true =>
    cases hlookup : memory.roots.lookup word with
    | some root =>
      rw [loadRoot_of_known hlisted hlookup] at h
      cases h
      exact .known hlisted hlookup
    | none =>
      obtain ⟨⟨answer, world⟩, hsource⟩ : ∃ result,
          (catalog.loadReference word).run memory.world = result := ⟨_, rfl⟩
      cases hsupplied : supplied? answer with
      | none =>
        rw [loadRoot_of_missing hlisted hlookup hsource hsupplied] at h
        cases h
        exact .missing hlisted hlookup hsource hsupplied
      | some grammar =>
        obtain ⟨⟨resolved, settled⟩, hresolved⟩ : ∃ result,
            (catalog.resolve (grammar.number memory.next).1 word).run
              { memory with world := world, next := (grammar.number memory.next).2 } = result :=
          ⟨_, rfl⟩
        rw [loadRoot_of_supplied hlisted hlookup hsource hsupplied hresolved] at h
        cases h
        exact .supplied hlisted hlookup hsource hsupplied hresolved

/-- A grammar that was not remembered under a name can be put there. -/
theorem extends_keep {settled : Memory σ} (hextends : memory.Extends settled)
    (hunknown : memory.roots.lookup word = none) : memory.Extends (settled.keep word outcome) := by
  cases outcome with
  | none => exact hextends
  | some root =>
    refine ⟨hextends.outcomes, fun name found hfound => ?_⟩
    have hne : name ≠ word := by
      rintro rfl
      rw [hunknown] at hfound
      cases hfound
    rw [Memory.lookup_keep, if_neg hne]
    exact hextends.roots _ _ hfound

/-- What loading a command leaves behind: a memory that extends the one before, and, where it
succeeded, the grammar under the command's name. The document may be deferred itself, and then the
outcome of its node is remembered besides. -/
theorem loadRoot_cases (h : (catalog.loadRoot word).run memory = (outcome, after)) :
    memory.Extends after ∧ ∀ root, outcome = some root →
      catalog.rootNames.contains word = true ∧ after.roots.lookup word = some root := by
  cases loadsRoot_of_loadRoot h with
  | unlisted => exact ⟨.refl _, by simp⟩
  | known hlisted hknown =>
    refine ⟨.refl _, ?_⟩
    rintro root ⟨rfl⟩
    exact ⟨hlisted, hknown⟩
  | missing => exact ⟨.of_eq rfl rfl, by simp⟩
  | @supplied answer world grammar _ settled hlisted hunknown _ _ hresolved =>
    have hadopted : memory.Extends
        { memory with world := world, next := (grammar.number memory.next).2 } := .of_eq rfl rfl
    refine ⟨extends_keep (hadopted.trans (extends_of_resolve hresolved)) hunknown, ?_⟩
    rintro root rfl
    refine ⟨hlisted, ?_⟩
    rw [Memory.lookup_keep, if_pos rfl]

theorem extends_of_loadRoot (h : (catalog.loadRoot word).run memory = (outcome, after)) :
    memory.Extends after :=
  (loadRoot_cases h).1

/-- The grammar of a command that was loaded once is kept, and needs no source: any catalog that
lists the command answers with it. Unlike for nodes this holds of success only; `LoadsRoot.missing`
leaves nothing that could be found again. -/
theorem loadRoot_replay (h : (catalog.loadRoot word).run memory = (some root, after))
    (hlater : after.Extends later) (any : Catalog σ)
    (hlisted : any.rootNames.contains word = true) :
    (any.loadRoot word).run later = (some root, later) := by
  obtain ⟨-, hloaded⟩ := loadRoot_cases h
  obtain ⟨-, hlookup⟩ := hloaded root rfl
  exact loadRoot_of_known hlisted (hlater.roots _ _ hlookup)

end Catalog

end CommandCompletion
