/-
The nodes of a grammar, and the identities they are given.

`Node.parts` lists every node of a tree in the order in which it is numbered: the
node itself, its children, and what its loader carries. Numbering gives them
consecutive identities and changes nothing else (`numbered`), so no two nodes of
a tree have the same one. The grammar without identities, `Node.plain`, has the
same nodes, children and overlays.
-/
import CommandCompletion.Grammar
import Mathlib.Data.List.Nodup

set_option autoImplicit false

namespace CommandCompletion

variable {ι : Type}

/-! ## Induction over a tree -/

namespace Node

/-- The fragment that the loader of a node carries. -/
def carried? (node : Node ι) : Option (Node ι) :=
  match node.loader with
  | some (.inline fragment) => some fragment
  | _ => none

mutual

/-- A property that a node has if its children and what its loader carries have it, holds of every
node. The cases are those of the recursion over nodes; the two loaders that carry nothing are like
none. -/
theorem induct {motive : Node ι → Prop}
    (step : ∀ node, (∀ child ∈ node.children, motive child) →
      (∀ fragment, node.carried? = some fragment → motive fragment) → motive node) :
    ∀ node, motive node
  | ⟨_, _, _, children, _, _, _, _, none⟩ =>
    step _ (inductAll step children) (by rintro _ ⟨⟩)
  | ⟨_, _, _, children, _, _, _, _, some (.reference _)⟩ =>
    step _ (inductAll step children) (by rintro _ ⟨⟩)
  | ⟨_, _, _, children, _, _, _, _, some (.generator _)⟩ =>
    step _ (inductAll step children) (by rintro _ ⟨⟩)
  | ⟨_, _, _, children, _, _, _, _, some (.inline fragment)⟩ =>
    step _ (inductAll step children) (by rintro _ ⟨⟩; exact induct step fragment)

theorem inductAll {motive : Node ι → Prop}
    (step : ∀ node, (∀ child ∈ node.children, motive child) →
      (∀ fragment, node.carried? = some fragment → motive fragment) → motive node) :
    ∀ nodes : List (Node ι), ∀ node ∈ nodes, motive node
  | [], _, h => by cases h
  | first :: rest, node, h =>
    (List.mem_cons.mp h).elim (fun heq => heq ▸ induct step first) (inductAll step rest node)

end

end Node

/-! ## The nodes of a tree -/

mutual

/-- Every node of the tree, those that loaders carry included, in the order of numbering: the node,
then its children, then its fragment. Numbering follows this order too, which is why the identities
can be written down as a range (`Numbered`). -/
def Node.parts (node : Node ι) : List (Node ι) :=
  match node with
  | ⟨id, names, description, children, options, args, hidden, priority, loader⟩ =>
    ⟨id, names, description, children, options, args, hidden, priority, loader⟩ ::
      (partsAll children ++
        match loader with
        | some (.inline fragment) => Node.parts fragment
        | some (.reference _) | some (.generator _) | none => [])

/-- Every node of several trees. -/
def partsAll : List (Node ι) → List (Node ι)
  | [] => []
  | node :: nodes => node.parts ++ partsAll nodes

end

theorem partsAll_eq (nodes : List (Node ι)) : partsAll nodes = nodes.flatMap Node.parts := by
  induction nodes with
  | nil => rfl
  | cons node nodes ih => rw [partsAll, ih, List.flatMap_cons]

theorem plainAll_eq (nodes : List (Node ι)) : plainAll nodes = nodes.map Node.plain := by
  induction nodes with
  | nil => rfl
  | cons node nodes ih => rw [plainAll, ih, List.map_cons]

/-- The loader without identities. -/
def Loader.plain : Loader (Node ι) → Loader Grammar
  | .inline fragment => .inline fragment.plain
  | .reference key => .reference key
  | .generator name => .generator name

namespace Node

variable {node base fragment a b c : Node ι}

theorem parts_eq (node : Node ι) : node.parts =
    node :: (node.children.flatMap parts ++ node.carried?.elim [] parts) := by
  obtain ⟨id, names, description, children, options, args, hidden, priority, loader⟩ := node
  match loader with
  | none | some (.inline _) | some (.reference _) | some (.generator _) =>
    rw [parts, partsAll_eq]
    rfl

theorem mem_parts_iff : a ∈ b.parts ↔ a = b ∨ (∃ child ∈ b.children, a ∈ child.parts) ∨
    ∃ fragment, b.carried? = some fragment ∧ a ∈ fragment.parts := by
  rw [parts_eq, List.mem_cons, List.mem_append, List.mem_flatMap]
  cases b.carried? <;> simp

theorem self_mem_parts (node : Node ι) : node ∈ node.parts := mem_parts_iff.mpr (.inl rfl)

theorem mem_parts_of_mem_children {child : Node ι} (h : child ∈ node.children) :
    child ∈ node.parts :=
  mem_parts_iff.mpr (.inr (.inl ⟨child, h, self_mem_parts child⟩))

theorem mem_parts_trans (h : a ∈ b.parts) (h' : b ∈ c.parts) : a ∈ c.parts := by
  induction c using induct with
  | step c ihChildren ihCarried =>
    -- The node in between is the last one itself, or in a child, or in the fragment.
    rcases mem_parts_iff.mp h' with rfl | ⟨child, hchild, hmem⟩ | ⟨fragment, hcarried, hmem⟩
    · exact h
    · exact mem_parts_iff.mpr (.inr (.inl ⟨child, hchild, ihChildren child hchild hmem⟩))
    · exact mem_parts_iff.mpr (.inr (.inr ⟨fragment, hcarried, ihCarried fragment hcarried hmem⟩))

/-- A child that answers is a child. -/
theorem findChild?_eq_some {word : String} {child : Node ι} (h : node.findChild? word = some child) :
    child ∈ node.children ∧ child.answersTo word = true := by
  unfold findChild? at h
  have hanswers := List.find?_some h
  exact ⟨List.mem_of_find?_eq_some h, hanswers⟩

/-- The children of an overlay are those of what it is made of. -/
theorem mem_children_overlay (h : a ∈ (base.overlay fragment).children) :
    a ∈ base.children ∨ a ∈ fragment.children := by
  unfold overlay orElseNonempty at h
  dsimp only at h
  split at h
  · exact .inl h
  · exact .inr h

/-- The nodes of an overlay are the overlay itself and what is below the
children of what it is made of. -/
theorem mem_parts_overlay (h : a ∈ (base.overlay fragment).parts) :
    a = base.overlay fragment ∨ (∃ child ∈ base.children, a ∈ child.parts) ∨
      ∃ child ∈ fragment.children, a ∈ child.parts := by
  rcases mem_parts_iff.mp h with rfl | ⟨child, hchild, hmem⟩ | ⟨_, hcarried, -⟩
  · exact .inl rfl
  · exact .inr ((mem_children_overlay hchild).imp (fun h => ⟨child, h, hmem⟩)
      fun h => ⟨child, h, hmem⟩)
  · cases hcarried

/-- A child in an overlay is a child in what it is made of. An overlay takes the children of the
fragment where it has none of its own, and never mixes the two. -/
theorem parent_of_overlay (h : b ∈ (base.overlay fragment).parts) (hchild : a ∈ b.children) :
    ∃ parent, a ∈ parent.children ∧ (parent ∈ base.parts ∨ parent ∈ fragment.parts) := by
  -- Its parent is the overlay itself, which is new, or a node below a child, which was there
  -- before.
  rcases mem_parts_overlay h with rfl | ⟨child, hbase, hpart⟩ | ⟨child, hfragment, hpart⟩
  · rcases mem_children_overlay hchild with hbase | hfragment
    · exact ⟨base, hbase, .inl base.self_mem_parts⟩
    · exact ⟨fragment, hfragment, .inr fragment.self_mem_parts⟩
  · exact ⟨b, hchild, .inl (mem_parts_trans hpart (mem_parts_of_mem_children hbase))⟩
  · exact ⟨b, hchild, .inr (mem_parts_trans hpart (mem_parts_of_mem_children hfragment))⟩

/-! ## Without identities -/

theorem plain_eq (node : Node ι) : node.plain = { node with
    id := (), children := node.children.map plain, loader := node.loader.map Loader.plain } := by
  obtain ⟨id, names, description, children, options, args, hidden, priority, loader⟩ := node
  match loader with
  | none | some (.inline _) | some (.reference _) | some (.generator _) =>
    rw [plain, plainAll_eq]
    rfl

@[simp] theorem names_plain (node : Node ι) : node.plain.names = node.names := by rw [plain_eq]

@[simp] theorem options_plain (node : Node ι) : node.plain.options = node.options := by
  rw [plain_eq]

@[simp] theorem args_plain (node : Node ι) : node.plain.args = node.args := by rw [plain_eq]

@[simp] theorem children_plain (node : Node ι) :
    node.plain.children = node.children.map plain := by rw [plain_eq]

@[simp] theorem loader_plain (node : Node ι) :
    node.plain.loader = node.loader.map Loader.plain := by rw [plain_eq]

@[simp] theorem answersTo_plain (node : Node ι) (name : String) :
    node.plain.answersTo name = node.answersTo name := by
  simp only [answersTo, names_plain]

theorem findChild?_plain (node : Node ι) (word : String) :
    node.plain.findChild? word = (node.findChild? word).map plain := by
  unfold findChild?
  rw [children_plain, List.find?_map]
  congr 2
  funext child
  exact answersTo_plain child word

theorem overlay_plain (base fragment : Node ι) :
    (base.overlay fragment).plain = base.plain.overlay fragment.plain := by
  have hchildren : (orElseNonempty base.children fragment.children).map plain =
      orElseNonempty (base.children.map plain) (fragment.children.map plain) := by
    unfold orElseNonempty
    rw [List.isEmpty_map]
    split <;> rfl
  rw [plain_eq (base.overlay fragment), plain_eq base, plain_eq fragment]
  unfold overlay
  dsimp only
  rw [hchildren]
  rfl

theorem carried?_plain (node : Node ι) : node.plain.carried? = node.carried?.map plain := by
  unfold carried?
  rw [loader_plain]
  cases node.loader with
  | none => rfl
  | some loader => cases loader <;> rfl

theorem parts_plain (node : Node ι) : node.plain.parts = node.parts.map plain := by
  induction node using induct with
  | step node ihChildren ihCarried =>
    -- Forgetting identities commutes with listing the nodes of the children and of the fragment.
    have hchildren : (node.children.map plain).flatMap parts =
        (node.children.flatMap parts).map plain := by
      rw [List.flatMap_map, List.map_flatMap, List.flatMap_def, List.flatMap_def,
        List.map_congr_left ihChildren]
    have hcarried : (node.carried?.map plain).elim [] parts =
        (node.carried?.elim [] parts).map plain := by
      cases hfragment : node.carried? with
      | none => rfl
      | some fragment => exact ihCarried fragment hfragment
    rw [parts_eq, children_plain, carried?_plain, hchildren, hcarried, parts_eq node,
      List.map_cons, List.map_append]

/-- A grammar has no identities to lose, so forgetting them once is forgetting them for good. -/
theorem plain_grammar (grammar : Grammar) : grammar.plain = grammar := by
  induction grammar using induct with
  | step grammar ihChildren ihCarried =>
    have hchildren : grammar.children.map plain = grammar.children :=
      (List.map_congr_left ihChildren).trans (List.map_id _)
    -- A loader has something to lose only where it carries a fragment.
    have hloader : grammar.loader.map Loader.plain = grammar.loader := by
      cases hloader : grammar.loader with
      | none => rfl
      | some loader =>
        cases loader with
        | inline fragment =>
          have hfragment := ihCarried fragment (by unfold carried?; rw [hloader])
          rw [Option.map_some, Loader.plain, hfragment]
        | reference | generator => rfl
    rw [plain_eq, hchildren, hloader]
    cases grammar
    rfl

/-! ## Numbering -/

/-- What numbering does to a grammar: nothing but give out the next identities, one a node, in the
order of `parts`. That no identity is given twice, and that all are new, are read off the last
field. -/
structure Numbered (grammar : Grammar) (next : Nat) : Prop where
  plain : (grammar.number next).1.plain = grammar
  left : (grammar.number next).2 = next + grammar.parts.length
  ids : (grammar.number next).1.parts.map (fun node => node.id) =
    List.range' next grammar.parts.length

/-- What numbering does to several grammars, one after the other. -/
structure NumberedAll (nodes : List Grammar) (next : Nat) : Prop where
  plain : (numberAll nodes next).1.map Node.plain = nodes
  left : (numberAll nodes next).2 = next + (nodes.flatMap parts).length
  ids : ((numberAll nodes next).1.flatMap parts).map (fun node => node.id) =
    List.range' next (nodes.flatMap parts).length

theorem numberedAll_of_forall {nodes : List Grammar}
    (h : ∀ node ∈ nodes, ∀ next, Numbered node next) (next : Nat) : NumberedAll nodes next := by
  induction nodes generalizing next with
  | nil => exact ⟨rfl, rfl, rfl⟩
  | cons node nodes ih =>
    have hnode := h node List.mem_cons_self next
    have hnodes := ih (fun other hmem => h other (List.mem_cons_of_mem _ hmem)) (node.number next).2
    -- The next grammar is numbered from where this one has left off.
    rw [hnode.left] at hnodes
    constructor
    · show (node.number next).1.plain :: (numberAll nodes (node.number next).2).1.map plain = _
      rw [hnode.plain, hnode.left, hnodes.plain]
    · show (numberAll nodes (node.number next).2).2 = _
      rw [hnode.left, hnodes.left, List.flatMap_cons, List.length_append]
      omega
    · show ((node.number next).1.parts ++
        (numberAll nodes (node.number next).2).1.flatMap parts).map (fun node => node.id) = _
      rw [List.map_append, hnode.ids, hnode.left, hnodes.ids, List.flatMap_cons,
        List.length_append, List.range'_append_1]

theorem numbered (grammar : Grammar) (next : Nat) : Numbered grammar next := by
  induction grammar using induct generalizing next with
  | step grammar ihChildren ihCarried =>
    obtain ⟨⟨⟩, names, description, children, options, args, hidden, priority, loader⟩ := grammar
    obtain ⟨hplain, hleft, hids⟩ := numberedAll_of_forall ihChildren (next + 1)
    dsimp only at hplain hleft hids
    -- Without a fragment the identities end with those of the children; with one, it is numbered
    -- from there on.
    match loader, ihCarried with
    | none, _ | some (.reference _), _ | some (.generator _), _ =>
      constructor
      · rw [number, plain_eq]
        dsimp only
        rw [hplain]
        rfl
      · rw [number, parts_eq]
        dsimp only
        rw [hleft]
        simp [carried?]
        omega
      · rw [number, parts_eq, parts_eq]
        dsimp only
        simp [carried?, hids, List.range'_succ]
    | some (.inline fragment), ihCarried =>
      obtain ⟨hplain', hleft', hids'⟩ := ihCarried fragment rfl (numberAll children (next + 1)).2
      rw [hleft] at hplain' hleft' hids'
      constructor
      · rw [number, plain_eq]
        dsimp only
        rw [hplain, hleft]
        simp only [Loader.plain, Option.map_some, hplain']
      · rw [number, parts_eq]
        dsimp only
        rw [hleft, hleft']
        simp [carried?]
        omega
      · rw [number, parts_eq, parts_eq]
        dsimp only
        simp only [carried?, Option.elim_some, List.map_cons, List.map_append, hids, hleft, hids',
          List.length_cons, List.length_append]
        rw [List.range'_append_1, List.range'_succ]

variable {grammar : Grammar} {next : Nat} {child x y : Node Nat}

theorem mem_number_parts (h : x ∈ (grammar.number next).1.parts) :
    next ≤ x.id ∧ x.id < (grammar.number next).2 := by
  have hmem := List.mem_map_of_mem (f := fun node : Node Nat => node.id) h
  rw [(numbered grammar next).ids, List.mem_range'_1] at hmem
  rw [(numbered grammar next).left]
  exact hmem

/-- No identity is given twice: the identities of the parts are a range, which has no duplicates. -/
theorem number_parts_inj (hx : x ∈ (grammar.number next).1.parts)
    (hy : y ∈ (grammar.number next).1.parts) (hid : x.id = y.id) : x = y := by
  have hnodup : ((grammar.number next).1.parts.map fun node => node.id).Nodup := by
    rw [(numbered grammar next).ids]
    exact List.nodup_range' 1
  exact List.inj_on_of_nodup_map hnodup hx hy hid

/-- The first identity goes to the grammar itself, the later ones to what is
below it. -/
theorem number_ids (grammar : Grammar) (next : Nat) : (grammar.number next).1.id = next ∧
    ∀ x ∈ (grammar.number next).1.children.flatMap parts ++
      (grammar.number next).1.carried?.elim [] parts, next < x.id := by
  have hids := (numbered grammar next).ids
  rw [parts_eq, parts_eq grammar, List.length_cons, List.range'_succ, List.map_cons,
    List.cons.injEq] at hids
  refine ⟨hids.1, fun x hx => ?_⟩
  have hmem := List.mem_map_of_mem (f := fun node : Node Nat => node.id) hx
  rw [hids.2, List.mem_range'_1] at hmem
  exact hmem.1

theorem number_id (grammar : Grammar) (next : Nat) : (grammar.number next).1.id = next :=
  (number_ids grammar next).1

theorem next_lt_of_mem_children (hchild : child ∈ (grammar.number next).1.children)
    (hx : x ∈ child.parts) : next < x.id := by
  refine (number_ids grammar next).2 x (List.mem_append_left _ ?_)
  exact List.mem_flatMap.mpr ⟨child, hchild, hx⟩

theorem next_lt_of_carried (hcarried : (grammar.number next).1.carried? = some child)
    (hx : x ∈ child.parts) : next < x.id := by
  refine (number_ids grammar next).2 x (List.mem_append_right _ ?_)
  rw [hcarried]
  exact hx

theorem next_lt_number (grammar : Grammar) (next : Nat) : next < (grammar.number next).2 := by
  have hself := mem_number_parts (self_mem_parts (grammar.number next).1)
  omega

end Node

end CommandCompletion
