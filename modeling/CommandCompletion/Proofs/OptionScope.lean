/-
Which options belong to the place a walk has reached.

The nodes a walk has stood on, since its start or since it last handed over to
another command, are its trail. All but the last are the ancestors of the node
it stands on, and what that node inherits is the merge of their persistent
options from the outermost inwards (`inheritedFrom`). This holds at every turn
of every walk (`Reaches.onTrail`): only entering a child and handing over change
the trail, and they change the inherited options with it.

`Scope` lists what the merge comes to, and `arrived_optionScoped` puts it
together for a walk that arrives: what is inherited, what is offered, and whose
option each word was that was taken as one.
-/
import Mathlib.Data.List.Induction
import CommandCompletion.Proofs.Progress
import CommandCompletion.Proofs.Shadowing

set_option autoImplicit false

namespace CommandCompletion.Walk

open CommandOption (passedOn merge Apart isShadowedBy)

variable {σ : Type} {catalog : Catalog σ} {directory : String} {shell : Shell}
variable {memory after : Memory σ} {walk last : Walk} {turns : List (Walk × Move)}

/-! ## Inheritance over several levels -/

/-- What a node below these ancestors inherits, the outermost ancestor first: the persistent options
of each level merged into what comes from above (`mergePersistentOptions`; specification, § 4.2). -/
def inheritedFrom (ancestors : List CatalogNode) : List CommandOption :=
  ancestors.foldl (fun inherited node => passedOn inherited node.options) []

theorem inheritedFrom_concat (ancestors : List CatalogNode) (node : CatalogNode) :
    inheritedFrom (ancestors ++ [node]) = passedOn (inheritedFrom ancestors) node.options := by
  simp only [inheritedFrom, List.foldl_append, List.foldl_cons, List.foldl_nil]

/-- A level deeper, options are added at the end only: the persistent-option set only grows while
descending (specification, § 3). Each level is a merge, and a merge keeps what it starts from. -/
theorem isPrefix_inheritedFrom (upper lower : List CatalogNode) :
    inheritedFrom upper <+: inheritedFrom (upper ++ lower) := by
  induction lower using List.reverseRecOn with
  | nil => simp
  | append_singleton lower node ih =>
    rw [← List.append_assoc, inheritedFrom_concat]
    exact ih.trans (CommandOption.isPrefix_merge _ _)

/-- Only persistent options of ancestors are inherited. The induction is from the right, since the
last ancestor is the one whose options are merged last. -/
theorem mem_inheritedFrom {ancestors : List CatalogNode} {option : CommandOption}
    (h : option ∈ inheritedFrom ancestors) :
    option.isPersistent = true ∧ ∃ node ∈ ancestors, option ∈ node.options := by
  induction ancestors using List.reverseRecOn with
  | nil => simp [inheritedFrom] at h
  | append_singleton ancestors node ih =>
    rw [inheritedFrom_concat] at h
    rcases CommandOption.mem_of_mem_merge h with habove | hhere
    · obtain ⟨hpersistent, declaring, hmem, hdeclared⟩ := ih habove
      exact ⟨hpersistent, declaring, List.mem_append_left _ hmem, hdeclared⟩
    · obtain ⟨hdeclared, hpersistent⟩ := List.mem_filter.mp hhere
      exact ⟨hpersistent, node, List.mem_append_right _ List.mem_cons_self, hdeclared⟩

theorem pairwise_inheritedFrom (ancestors : List CatalogNode) :
    (inheritedFrom ancestors).Pairwise Apart := by
  induction ancestors using List.reverseRecOn with
  | nil => exact List.Pairwise.nil
  | append_singleton ancestors node ih =>
    rw [inheritedFrom_concat]
    exact CommandOption.pairwise_merge ih _

/-- The options that a node below `ancestors` inherits, and why just these. The fields say what is
in (`declared`), that no two share an alias (`apart`), what can be missing and on account of which
option (`kept`), and that every level adds to the one above it (`grows`). -/
structure Scope (ancestors : List CatalogNode) (inherited : List CommandOption) : Prop where
  merged : inherited = inheritedFrom ancestors
  declared : ∀ option ∈ inherited,
    option.isPersistent = true ∧ ∃ node ∈ ancestors, option ∈ node.options
  apart : inherited.Pairwise Apart
  /-- A persistent option of an ancestor is missing only if one that was kept
  before it, from further out or from earlier in the same node, shares an alias
  with it. -/
  kept : ∀ upper node lower before option later, ancestors = upper ++ node :: lower →
    node.options = before ++ option :: later → option.isPersistent = true →
    option ∈ inherited ∨ ∃ taken ∈ passedOn (inheritedFrom upper) before,
      taken ∈ inherited ∧ taken.sharesName option = true
  grows : ∀ upper node lower, ancestors = upper ++ node :: lower →
    inheritedFrom upper <+: inheritedFrom (upper ++ [node]) ∧
      inheritedFrom (upper ++ [node]) <+: inherited

theorem scope_inheritedFrom (ancestors : List CatalogNode) :
    Scope ancestors (inheritedFrom ancestors) where
  merged := rfl
  declared := fun _ h => mem_inheritedFrom h
  apart := pairwise_inheritedFrom ancestors
  kept := by
    rintro upper node lower before option later rfl hoptions hpersistent
    have hlevel : inheritedFrom (upper ++ [node]) =
        merge (inheritedFrom upper) ((before.filter fun option => option.isPersistent) ++
          option :: later.filter fun option => option.isPersistent) := by
      rw [inheritedFrom_concat, passedOn, hoptions, List.filter_append, List.filter_cons,
        if_pos hpersistent]
    have hlower : inheritedFrom (upper ++ [node]) <+: inheritedFrom (upper ++ node :: lower) := by
      have h := isPrefix_inheritedFrom (upper ++ [node]) lower
      rwa [List.append_assoc, List.singleton_append] at h
    -- The option is one of its level, or shares an alias with one that was there by then; levels
    -- further down keep either.
    rcases CommandOption.mem_merge_or_shadowed (inheritedFrom upper)
        (before.filter fun option => option.isPersistent) option
        (later.filter fun option => option.isPersistent) with hmem | ⟨taken, hmem, hshares⟩
    · left
      rw [← hlevel] at hmem
      exact hlower.subset hmem
    · right
      refine ⟨taken, hmem, hlower.subset ?_, hshares⟩
      rw [hlevel, CommandOption.merge_append]
      exact (CommandOption.isPrefix_merge _ _).subset hmem
  grows := by
    rintro upper node lower rfl
    have h := isPrefix_inheritedFrom (upper ++ [node]) lower
    rw [List.append_assoc, List.singleton_append] at h
    exact ⟨isPrefix_inheritedFrom upper [node], h⟩

/-! ## The trail of a walk -/

/-- The nodes a walk has stood on, after one more move: a child is added, and a command that takes
over begins a new trail, since it is matched independently of what came before it. -/
def trailAfter (trail : List CatalogNode) : Move → List CatalogNode
  | .enter child => trail ++ [child]
  | .delegate root => [root]
  | _ => trail

/-- The nodes a walk from `root` has stood on since it began or last handed over,
the one it stands on last. -/
def trail (root : CatalogNode) (turns : List (Walk × Move)) : List CatalogNode :=
  turns.foldl (fun trail turn => trailAfter trail turn.2) [root]

/-- The walk stands at the end of the trail and inherits from the rest of it. This is the invariant
that carries the whole module; no statement about one option alone would be kept by a move. -/
def OnTrail (walk : Walk) (trail : List CatalogNode) : Prop :=
  ∃ ancestors, trail = ancestors ++ [walk.node] ∧ walk.inherited = inheritedFrom ancestors

/-- One move keeps the walk on its trail, whichever it is. Only `enter` and `delegate` touch the
node and the inherited options; taking a word changes neither. -/
theorem OnTrail.perform {trail : List CatalogNode} (h : OnTrail walk trail) (move : Move) :
    OnTrail (walk.perform move) (trailAfter trail move) := by
  obtain ⟨ancestors, rfl, hinherited⟩ := h
  cases move with
  | enter child =>
    refine ⟨ancestors ++ [walk.node], rfl, ?_⟩
    rw [inheritedFrom_concat, ← hinherited]
    rfl
  | delegate root => exact ⟨[], rfl, rfl⟩
  | beginArguments | endArguments | beginOption => exact ⟨ancestors, rfl, hinherited⟩
  | takeOption | takeValue =>
    have hnode : ∀ persist, (walk.take persist).node = walk.node ∧
        (walk.take persist).inherited = walk.inherited := by
      intro persist
      unfold take
      split <;> exact ⟨rfl, rfl⟩
    refine ⟨ancestors, ?_, ?_⟩
    · rw [Walk.perform, (hnode _).1]
      rfl
    · rw [Walk.perform, (hnode _).2]
      exact hinherited

/-- A walk stays on its trail over all its turns: by induction on them, with the trail general and
`OnTrail.perform` as the step. -/
theorem Reaches.onTrail (h : Reaches catalog memory walk turns last after)
    {start : List CatalogNode} (hstart : OnTrail walk start) :
    OnTrail last (turns.foldl (fun trail turn => trailAfter trail turn.2) start) := by
  induction h generalizing start with
  | here => exact hstart
  | go _ _ ih => exact ih (hstart.perform _)

/-! ## Options at the place reached -/

/-- What is said of the options of a walk from `root` that made these turns and
arrived in `context`. -/
structure OptionScoped (root : CatalogNode) (turns : List (Walk × Move))
    (context : Context Nat) : Prop where
  arrived : ∃ ancestors, trail root turns = ancestors ++ [context.node] ∧
    Scope ancestors context.inherited
  /-- It was so at every turn on the way. -/
  along : ∀ before walk move rest, turns = before ++ (walk, move) :: rest →
    ∃ ancestors, trail root before = ancestors ++ [walk.node] ∧ Scope ancestors walk.inherited
  offered : context.availableOptions = context.node.options ++
    context.inherited.filter fun option => !option.isShadowedBy context.node.options
  /-- A word that was taken as an option names one of the node's own, or a
  persistent one that an ancestor declares. -/
  typed : ∀ before walk option persist rest,
    turns = before ++ (walk, .takeOption option persist) :: rest →
    ∃ word words ancestors, walk.words = word :: words ∧ option.answersTo word.text = true ∧
      trail root before = ancestors ++ [walk.node] ∧
      (option ∈ walk.node.options ∨ option ∈ walk.inherited ∧ option.isPersistent = true ∧
        ∃ node ∈ ancestors, option ∈ node.options)

/-- An option that a typed word names is inherited or the node's own. -/
theorem mem_of_find? {name : String} {inherited own : List CommandOption}
    {option : CommandOption} (h : CommandOption.find? name inherited own = some option) :
    option.answersTo name = true ∧ (option ∈ own ∨ option ∈ inherited) := by
  have hanswers := List.find?_some h
  have hmem := List.mem_of_find?_eq_some h
  rw [List.mem_append] at hmem
  exact ⟨hanswers, hmem.symm⟩

/-- **The scope of options, for every walk that arrives** (specification, § 8, first property). The
walk is turned into moves, along which it stays on its trail; cutting them at a turn gives the same
for every place on the way. What is offered is a merge of lists that are apart from each other, so
it is a filter, and what was typed was looked up before it was taken (`NamesNext`). -/
theorem arrived_optionScoped {words : List Word} {root : CatalogNode} {context : Context Nat}
    (h : (run catalog directory shell { words := words, node := root }).run memory =
      ((turns, .arrived context), after)) : OptionScoped root turns context := by
  obtain ⟨last, hreaches, harrives⟩ := reaches_of_run h
  have hstart : OnTrail { words := words, node := root } [root] := ⟨[], rfl, rfl⟩
  have hnames : NamesNext { words := words, node := root } := namesNext_of_command rfl
  obtain ⟨-, expected, -, hcontext⟩ := harrives
  have hnode : context.node = last.node := by rw [hcontext]; rfl
  have hinherited : context.inherited = last.inherited := by rw [hcontext]; rfl
  -- The invariant holds at every turn, not only at the end: the turns before it are a walk as
  -- well.
  have along : ∀ before current move rest, turns = before ++ (current, move) :: rest →
      ∃ ancestors, trail root before = ancestors ++ [current.node] ∧
        Scope ancestors current.inherited := by
    intro before current move rest hturns
    obtain ⟨here, there, hbefore, -, -⟩ := hreaches.split hturns
    obtain ⟨ancestors, htrail, hmerged⟩ := hbefore.onTrail hstart
    exact ⟨ancestors, htrail, hmerged ▸ scope_inheritedFrom ancestors⟩
  obtain ⟨ancestors, htrail, hmerged⟩ := hreaches.onTrail hstart
  refine ⟨⟨ancestors, ?_, ?_⟩, along, ?_, ?_⟩
  · rw [hnode]
    exact htrail
  · rw [hinherited, hmerged]
    exact scope_inheritedFrom ancestors
  · refine CommandOption.merge_eq_append_filter _ ?_
    rw [hinherited, hmerged]
    exact pairwise_inheritedFrom ancestors
  · intro before current option persist rest hturns
    obtain ⟨here, there, hbefore, hgoes, -⟩ := hreaches.split hturns
    obtain ⟨above, habove, hscope⟩ := along _ _ _ _ hturns
    cases hgoes with
    | takeOption hstage =>
      -- The option was found when the walk went on to it, one turn before.
      obtain ⟨word, others, hwords, -, -, hfound⟩ := hbefore.namesNext hnames option hstage
      obtain ⟨hanswers, hown | hinherits⟩ := mem_of_find? hfound
      · exact ⟨word, others, above, hwords, hanswers, habove, .inl hown⟩
      · exact ⟨word, others, above, hwords, hanswers, habove,
          .inr ⟨hinherits, hscope.declared option hinherits⟩⟩

/-! A walk over three levels, the middle one deferred. Its fragment declares
`-C` again, which the outer declaration shadows. -/

/-- A catalog without documents. -/
def emptyCatalog : Catalog Unit where
  source := { keys := [], load := fun _ => return .ok none }
  probe := ⟨fun command _ => return .error (.probeNotStarted command "no commands")⟩

/-- Declares `-C`, and has a deferred child with an option `-v` for its own
child. -/
def layeredRoot : CatalogNode where
  id := 0
  names := ["git"]
  options := [{ names := ["-C"], args := [{ name := "path" }], isPersistent := true },
    { names := ["--no-pager"] }]
  children := [{
    id := 1
    names := ["remote"]
    loader := some (.inline {
      id := 2
      options := [{ names := ["-C", "--cd"], isPersistent := true },
        { names := ["-v"], isPersistent := true }]
      children := [{ id := 3, names := ["add"], options := [{ names := ["-v", "-f"] }] }] }) }]

/-- Words that lead down to `add`, with an option on each level. -/
def layeredWords : List Word :=
  ["-C", "dir", "remote", "-v", "add", "-f"].map (Word.ofText · true) ++ [Word.emptyAt 25]

theorem arrived_optionScoped_layered : ∃ turns context after,
    (run emptyCatalog "/" .bash { words := layeredWords, node := layeredRoot }).run
      { world := () } = ((turns, .arrived context), after) ∧
    context.inherited.map (fun option => option.names) = [["-C"], ["-v"]] ∧
    OptionScoped layeredRoot turns context := by
  have h : (match ((run emptyCatalog "/" .bash { words := layeredWords, node := layeredRoot }).run
      { world := () }).1.2 with
    | .arrived context => context.inherited.map (fun option => option.names) == [["-C"], ["-v"]]
    | _ => false) = true := by decide +kernel
  obtain ⟨⟨⟨turns, ending⟩, after⟩, hrun⟩ : ∃ result,
      (run emptyCatalog "/" .bash { words := layeredWords, node := layeredRoot }).run
        { world := () } = result := ⟨_, rfl⟩
  rw [hrun] at h
  cases ending with
  | arrived context =>
    exact ⟨turns, context, after, hrun, by simpa using h, arrived_optionScoped hrun⟩
  | refused => cases h
  | lost => cases h

end CommandCompletion.Walk
