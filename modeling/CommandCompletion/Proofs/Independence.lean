/-
Answers that do not depend on what was asked before.

While nothing outside changes and every node that is handed out comes out the
same for all its names, suggestions are the same for an engine that was used and
for one that was not (`Engine.answer_after_requests`). The history of an engine
shows in what it has loaded and which identities it gave, and in nothing else.

The condition on names is needed. Where a generator answers with several
locations, what is remembered for a node is what the name typed first picked, and
another name of the node gets the same from then on (`Catalog.resolve_again_iff`,
`Engine.answer_depends_on_history`).
-/
import CommandCompletion.Proofs.Alike
import CommandCompletion.Proofs.Sessions

set_option autoImplicit false

namespace CommandCompletion

variable {σ : Type} {steady : σ → Prop}

/-! ## Recommenders -/

/-- What is recommended depends on the grammar and not on identities. A recommender of one's own may
look at them, which is why the result below asks for this and does not assume the built-in one. -/
def Recommender.IgnoresIdentities (recommender : Recommender Nat) : Prop :=
  ∀ (a b : Context Nat) (entries : List (String × Bool)), a.plain = b.plain →
    recommender a entries = recommender b entries

namespace Recommendation

variable {ι : Type}

/-- A child is recommended by its names, description and priority, none of which is an identity. -/
theorem ofChild?_plain (typed : String) (child : Node ι) :
    ofChild? typed child.plain = ofChild? typed child := by
  rw [Node.plain_eq]
  rfl

/-- The same children and options are recommended: children by the lemma above, and options without
regard to the node at all. -/
theorem childrenAndOptions_plain (context : Context ι) (typed : String) :
    childrenAndOptions context.plain typed = childrenAndOptions context typed := by
  have hchildren : context.plain.node.children.filterMap (ofChild? typed) =
      context.node.children.filterMap (ofChild? typed) := by
    show context.node.plain.children.filterMap (ofChild? typed) = _
    rw [Node.children_plain, List.filterMap_map]
    exact congrArg (List.filterMap · _) (funext fun child => ofChild?_plain typed child)
  have hoptions : context.plain.availableOptions = context.availableOptions := by
    show CommandOption.available context.node.plain.options context.inherited = _
    rw [Node.options_plain]
    rfl
  unfold childrenAndOptions
  rw [hchildren, hoptions]
  rfl

/-- So the list of candidates is the same, whatever the expected step is. -/
theorem candidates?_plain (commands : List String) (context : Context ι)
    (entries : List (String × Bool)) :
    candidates? commands context.plain entries = candidates? commands context entries := by
  have hargs : context.plain.node.args = context.node.args := Node.args_plain context.node
  have htyped : context.plain.typed = context.typed := rfl
  have hexpected : context.plain.expected = context.expected := rfl
  unfold candidates?
  rw [htyped, hexpected]
  dsimp only
  rw [childrenAndOptions_plain, hargs]
  rfl

/-- The recommender that goes by the grammar does: every list of candidates is made from fields that
forgetting identities leaves alone. -/
theorem byGrammar_ignoresIdentities (commands : List String) :
    Recommender.IgnoresIdentities (byGrammar commands) := by
  intro a b entries hplain
  have htyped : a.typed = b.typed := by
    show a.plain.typed = b.plain.typed
    rw [hplain]
  -- Two contexts that are equal without identities are compared through what they have in common.
  unfold byGrammar
  rw [← candidates?_plain commands a, ← candidates?_plain commands b, hplain, htyped]

end Recommendation

/-! ## Requests -/

/-- A request for suggestions. -/
structure Request where
  home : Option String := none
  shell : Shell := .bash
  cwd : String
  line : String

namespace Engine

/-- What a request is answered. -/
def answer (engine : Engine σ) (memory : Memory σ) (request : Request) :
    Except Failure (Option Suggestions) :=
  ((engine.suggest request.home request.shell request.cwd request.line).run memory).1

/-- What is remembered after a request. -/
def afterRequest (engine : Engine σ) (memory : Memory σ) (request : Request) : Memory σ :=
  ((engine.suggest request.home request.shell request.cwd request.line).run memory).2

/-- What is remembered after several. -/
def afterRequests (engine : Engine σ) (memory : Memory σ) (history : List Request) : Memory σ :=
  history.foldl engine.afterRequest memory

variable {engine : Engine σ} {files : Files} {memory other after after' : Memory σ}
variable {home : Option String} {shell : Shell} {cwd line : String} {typed : TypedLine}

/-- At places that differ in identities only the same can be offered. -/
theorem offers_alike (hrecommender : engine.recommender.IgnoresIdentities) (a b : Context Nat)
    (hplain : a.plain = b.plain) : a.directory = b.directory ∧
      ∀ entries, engine.recommender a entries = engine.recommender b entries := by
  refine ⟨?_, fun entries => hrecommender a b entries hplain⟩
  show a.plain.directory = b.plain.directory
  rw [hplain]

section Steady

variable (hsteady : engine.catalog.Steady steady)
variable (hfiles : ∀ world, steady world → engine.files world = files)
variable (hagree : engine.catalog.AlwaysAgree steady)

include hsteady

/-- A line begins with the same command. -/
theorem plain_of_command? {root? root?' : Option CatalogNode}
    (h : engine.catalog.Faithful steady memory) (h' : engine.catalog.Faithful steady other)
    (hrun : (engine.command? typed).run memory = (root?, after))
    (hrun' : (engine.command? typed).run other = (root?', after')) :
    root?.map Node.plain = root?'.map Node.plain := by
  unfold command? at hrun hrun'
  -- Without a word no grammar is looked for; otherwise both memories load the one of the first
  -- word.
  cases hwords : typed.earlier with
  | nil =>
    rw [hwords] at hrun hrun'
    cases hrun
    cases hrun'
    rfl
  | cons command rest =>
    rw [hwords] at hrun hrun'
    exact Catalog.plain_of_loadRoot hsteady h h' hrun hrun'

include hagree

theorem faithful_afterRequests (hfaithful : engine.catalog.Faithful steady memory)
    (history : List Request) :
    engine.catalog.Faithful steady (engine.afterRequests memory history) := by
  induction history generalizing memory with
  | nil => exact hfaithful
  | cons request history ih =>
    exact ih (hfaithful.loads hsteady hagree (loads_of_suggest rfl))

include hfiles

/-- From the same grammar, a line leads to the same place, and the same number of characters is to
be dropped: the word in progress is read against the files, which both see alike. -/
theorem locateFrom_some_alike {root root' : CatalogNode}
    {place place' : Except Failure (Option (Context Nat) × Nat)}
    (h : engine.catalog.Faithful steady memory) (h' : engine.catalog.Faithful steady other)
    (hroot : engine.catalog.Holds memory root) (hroot' : engine.catalog.Holds other root')
    (hplain : root.plain = root'.plain)
    (hrun : (engine.locateFrom home shell cwd line typed (some root)).run memory = (place, after))
    (hrun' : (engine.locateFrom home shell cwd line typed (some root')).run other =
      (place', after')) :
    ∃ context? context?' dropped, place = .ok (context?, dropped) ∧
      place' = .ok (context?', dropped) ∧
      context?.map Context.plain = context?'.map Context.plain := by
  obtain ⟨host, seen, hhost, hrun⟩ := Recall.exists_of_run_bind hrun
  obtain ⟨host', seen', hhost', hrun'⟩ := Recall.exists_of_run_bind hrun'
  cases hhost
  cases hhost'
  -- Both see the same files, so the word in progress reads the same.
  rw [hfiles _ h.world] at hrun
  rw [hfiles _ h'.world] at hrun'
  obtain ⟨found, walked, hfound, hrun⟩ := Recall.exists_of_run_bind hrun
  obtain ⟨found', walked', hfound', hrun'⟩ := Recall.exists_of_run_bind hrun'
  obtain ⟨context?, context?', rfl, rfl, hsame⟩ := Catalog.locate_alike hsteady hagree h h'
    hroot hroot' hplain hfound hfound'
  cases hrun
  cases hrun'
  exact ⟨context?, context?', _, rfl, rfl, hsame⟩

omit hfiles in
/-- Without a grammar, a line is walked down one of the catalog's own, which are
the same from the beginning. -/
theorem locateFrom_none_alike {place place' : Except Failure (Option (Context Nat) × Nat)}
    (h : engine.catalog.Faithful steady memory) (h' : engine.catalog.Faithful steady other)
    (hrun : (engine.locateFrom home shell cwd line typed none).run memory = (place, after))
    (hrun' : (engine.locateFrom home shell cwd line typed none).run other = (place', after')) :
    ∃ context? context?' dropped, place = .ok (context?, dropped) ∧
      place' = .ok (context?', dropped) ∧
      context?.map Context.plain = context?'.map Context.plain := by
  obtain ⟨found, walked, hfound, hrun⟩ := Recall.exists_of_run_bind hrun
  obtain ⟨found', walked', hfound', hrun'⟩ := Recall.exists_of_run_bind hrun'
  obtain ⟨context?, context?', rfl, rfl, hsame⟩ := Catalog.locate_alike hsteady hagree h h'
    holds_own holds_own rfl hfound hfound'
  cases hrun
  cases hrun'
  exact ⟨context?, context?', _, rfl, rfl, hsame⟩

theorem locateFrom_alike {root? root?' : Option CatalogNode}
    {place place' : Except Failure (Option (Context Nat) × Nat)}
    (h : engine.catalog.Faithful steady memory) (h' : engine.catalog.Faithful steady other)
    (hroot : ∀ root, root? = some root → engine.catalog.Holds memory root)
    (hroot' : ∀ root, root?' = some root → engine.catalog.Holds other root)
    (hplain : root?.map Node.plain = root?'.map Node.plain)
    (hrun : (engine.locateFrom home shell cwd line typed root?).run memory = (place, after))
    (hrun' : (engine.locateFrom home shell cwd line typed root?').run other = (place', after')) :
    ∃ context? context?' dropped, place = .ok (context?, dropped) ∧
      place' = .ok (context?', dropped) ∧
      context?.map Context.plain = context?'.map Context.plain := by
  -- Both lines have a grammar or neither has, so only the two equal cases are left.
  cases root? with
  | some root =>
    cases root?' with
    | none => cases hplain
    | some root' =>
      exact locateFrom_some_alike hsteady hfiles hagree h h' (hroot root rfl) (hroot' root' rfl)
        (Option.some.inj hplain) hrun hrun'
  | none =>
    cases root?' with
    | some root' => cases hplain
    | none => exact locateFrom_none_alike hsteady hagree h h' hrun hrun'

/-- **Suggestions are the same in any two faithful memories.** The request is followed step by step
in both: the command, the place, the files. After each step the memories differ, but both are
faithful again, and what was found agrees up to identities; the recommender does not see those. -/
theorem answer_alike (hrecommender : engine.recommender.IgnoresIdentities)
    (h : engine.catalog.Faithful steady memory) (h' : engine.catalog.Faithful steady other)
    (request : Request) : engine.answer memory request = engine.answer other request := by
  obtain ⟨⟨answer, after⟩, hrun⟩ : ∃ result,
      (engine.suggest request.home request.shell request.cwd request.line).run memory = result :=
    ⟨_, rfl⟩
  obtain ⟨⟨answer', after'⟩, hrun'⟩ : ∃ result,
      (engine.suggest request.home request.shell request.cwd request.line).run other = result :=
    ⟨_, rfl⟩
  unfold Engine.answer
  rw [hrun, hrun']
  unfold suggest at hrun hrun'
  cases htyped : TypedLine.ofLine? request.shell request.line with
  | none =>
    rw [htyped] at hrun hrun'
    cases hrun
    cases hrun'
    rfl
  | some typed =>
    rw [htyped] at hrun hrun'
    obtain ⟨place, walked, hplace, hrun⟩ := Recall.exists_of_run_bind hrun
    obtain ⟨place', walked', hplace', hrun'⟩ := Recall.exists_of_run_bind hrun'
    obtain ⟨host, seen, hhost, hrun⟩ := Recall.exists_of_run_bind hrun
    obtain ⟨host', seen', hhost', hrun'⟩ := Recall.exists_of_run_bind hrun'
    cases hhost
    cases hhost'
    -- What was loaded on the way differs, but both memories stay faithful.
    rw [locate_eq] at hplace hplace'
    obtain ⟨root?, loaded, hroot, hplace⟩ := Recall.exists_of_run_bind hplace
    obtain ⟨root?', loaded', hroot', hplace'⟩ := Recall.exists_of_run_bind hplace'
    obtain ⟨hloads, hheld⟩ := loads_of_command? htyped hroot
    obtain ⟨hloads', hheld'⟩ := loads_of_command? htyped hroot'
    have hloaded := h.loads hsteady hagree hloads
    have hloaded' := h'.loads hsteady hagree hloads'
    have hwalked := hloaded.loads hsteady hagree (loads_of_locateFrom htyped hheld hplace)
    have hwalked' := hloaded'.loads hsteady hagree (loads_of_locateFrom htyped hheld' hplace')
    rw [hfiles _ hwalked.world] at hrun
    rw [hfiles _ hwalked'.world] at hrun'
    obtain ⟨context?, context?', dropped, rfl, rfl, hsame⟩ := locateFrom_alike hsteady hfiles hagree
      hloaded hloaded' hheld hheld' (plain_of_command? hsteady h h' hroot hroot')
      hplace hplace'
    cases hrun
    cases hrun'
    exact congrArg Except.ok (offered_of_map_eq (offers_alike hrecommender) hsame)

end Steady

/-! ## Whatever was asked before -/

/-- **Suggestions do not depend on what was asked before** (specification, § 5: requests are
independent). After any requests a request is answered as a fresh engine answers it, and what is
remembered for a node is what would be loaded for any of its names. Both are faithfulness: it holds
of a memory that is not used yet, and every request keeps it. -/
theorem answer_after_requests (engine : Engine σ) {files : Files}
    (hsteady : engine.catalog.Steady steady)
    (hfiles : ∀ world, steady world → engine.files world = files)
    (hrecommender : engine.recommender.IgnoresIdentities)
    (hagree : engine.catalog.AlwaysAgree steady)
    {world fresh : σ} (hworld : steady world) (hfresh : steady fresh)
    (history : List Request) :
    (∀ request,
      engine.answer (engine.afterRequests (engine.catalog.initialMemory world) history) request =
        engine.answer (engine.catalog.initialMemory fresh) request) ∧
    ∀ node outcome word,
      engine.catalog.Holds (engine.afterRequests (engine.catalog.initialMemory world) history) node →
      (engine.afterRequests (engine.catalog.initialMemory world) history).definition node =
        .resolved outcome → node.answersTo word = true →
      ((engine.catalog.whole? word node).run fresh).1 = outcome.map Node.plain := by
  have hused := faithful_afterRequests hsteady hagree
    (Catalog.faithful_initialMemory engine.catalog hworld) history
  have hunused := Catalog.faithful_initialMemory engine.catalog hfresh
  -- The answers are those of a fresh engine; what is remembered is what would be loaded.
  constructor
  · intro request
    exact answer_alike hsteady hfiles hagree hrecommender hused hunused request
  · intro node outcome word hheld hresolved hname
    exact hused.resolved node outcome word fresh hheld hresolved hname hfresh

/-! Engines whose documents and answers are written down. -/

variable {entries : List (String × Supply)} {answers : List (String × Except Failure Generated)}

theorem exists_answer_of_lookup {name : String} {generator : Generator World}
    (h : (scripted entries answers).catalog.generators.lookup name = some generator) :
    ∃ answer, (name, answer) ∈ answers ∧ generator = .ofAnswer name answer := by
  obtain ⟨before, after, hsplit, -⟩ := List.lookup_eq_some_iff.mp h
  have hmem : (name, generator) ∈ (scripted entries answers).catalog.generators := by
    rw [hsplit]
    exact List.mem_append_right _ List.mem_cons_self
  obtain ⟨⟨_, answer⟩, hanswer, heq⟩ := List.mem_map.mp hmem
  cases heq
  exact ⟨answer, hanswer, rfl⟩

/-- What a generator records does not change the files. -/
theorem constant_ofAnswer (files : Files) (name word : String)
    (answer : Except Failure Generated) (probe : Probe World) :
    Constant (fun world => world.files = files)
      ((Generator.ofAnswer name answer).generate word probe) answer :=
  fun _ hworld => ⟨rfl, hworld⟩

theorem scripted_steady (files : Files) :
    (scripted entries answers).catalog.Steady fun world => world.files = files where
  source := fun _ => ⟨_, .pure _⟩
  locator := fun _ _ => ⟨_, .pure _⟩
  generator := by
    intro name generator hlookup
    obtain ⟨answer, -, rfl⟩ := exists_answer_of_lookup hlookup
    exact ⟨answer, fun word => constant_ofAnswer files name word answer _⟩

theorem scripted_alwaysAgree (files : Files)
    (hsingle : ∀ entry ∈ answers, ∀ locations, entry.2 ≠ .ok (.locations locations)) :
    (scripted entries answers).catalog.AlwaysAgree fun world => world.files = files := by
  refine Catalog.alwaysAgree_of_answers (scripted_steady files) fun name generator hlookup => ?_
  obtain ⟨answer, hmem, rfl⟩ := exists_answer_of_lookup hlookup
  exact ⟨answer, fun word => constant_ofAnswer files name word answer _, hsingle _ hmem⟩

/-- A child with two names whose generator answers with a fragment. -/
theorem answer_after_requests_plugin :
    pluginEngine.answer
        (pluginEngine.afterRequests (pluginEngine.catalog.initialMemory {})
          [{ cwd := "/w", line := "tool plugin " }])
        { cwd := "/w", line := "tool p " } =
      pluginEngine.answer (pluginEngine.catalog.initialMemory {})
        { cwd := "/w", line := "tool p " } ∧
    (pluginEngine.afterRequests (pluginEngine.catalog.initialMemory {})
      [{ cwd := "/w", line := "tool plugin " }]).world.log = ["generate plugins plugin"] := by
  have hsingle : pluginEngine.catalog.AlwaysAgree fun world => world.files = {} := by
    refine scripted_alwaysAgree {} ?_
    rintro entry hmem locations
    obtain rfl := List.mem_singleton.mp hmem
    rintro ⟨⟩
  have hanswers := answer_after_requests pluginEngine (scripted_steady {})
    (fun world hworld => hworld) (Recommendation.byGrammar_ignoresIdentities _) hsingle
    (rfl : ({} : World).files = {}) (rfl : ({} : World).files = {})
    [{ cwd := "/w", line := "tool plugin " }]
  exact ⟨hanswers.1 { cwd := "/w", line := "tool p " }, by decide +kernel⟩

/-- Knows `tool`, whose child `deploy`, or `dp`, comes from one of two documents:
the one named like the typed word. -/
def aliasEngine : Engine World := scripted
  [("tool", .grammar {
    id := ()
    names := ["tool"]
    children := [
      { id := (), names := ["deploy", "dp"], loader := some (.generator "plugins") }] }),
   ("x/deploy", .grammar {
    id := ()
    names := ["deploy"]
    children := [{ id := (), names := ["prod"] }] }),
   ("x/dp", .grammar {
    id := ()
    names := ["dp"]
    children := [{ id := (), names := ["fast"] }] })]
  [("plugins", .ok (.locations [.catalogEntry "x/deploy", .catalogEntry "x/dp"]))]

/-- The names of what is suggested. -/
def offeredNames (answer : Except Failure (Option Suggestions)) : List String :=
  match answer with
  | .ok (some suggestions) => suggestions.candidates.map (·.name)
  | _ => []

/-- The name that is typed first decides what the other name gets. Everything else that
`answer_after_requests` asks for holds of this engine, so its condition on names cannot be left out.
-/
theorem answer_depends_on_history :
    aliasEngine.catalog.Steady (fun world => world.files = {}) ∧
    (∀ world, world.files = {} → aliasEngine.files world = {}) ∧
    aliasEngine.recommender.IgnoresIdentities ∧
    ∃ history request,
      aliasEngine.answer
          (aliasEngine.afterRequests (aliasEngine.catalog.initialMemory {}) history) request ≠
        aliasEngine.answer (aliasEngine.catalog.initialMemory {}) request := by
  refine ⟨scripted_steady {}, fun world hworld => hworld,
    Recommendation.byGrammar_ignoresIdentities _,
    [{ cwd := "/w", line := "tool deploy " }], { cwd := "/w", line := "tool dp " }, ?_⟩
  intro hsame
  have hafter : offeredNames (aliasEngine.answer
      (aliasEngine.afterRequests (aliasEngine.catalog.initialMemory {})
        [{ cwd := "/w", line := "tool deploy " }])
      { cwd := "/w", line := "tool dp " }) = ["prod"] := by decide +kernel
  have hfresh : offeredNames (aliasEngine.answer (aliasEngine.catalog.initialMemory {})
      { cwd := "/w", line := "tool dp " }) = ["fast"] := by decide +kernel
  rw [hsame, hfresh] at hafter
  exact absurd hafter (by decide)

end Engine

end CommandCompletion
