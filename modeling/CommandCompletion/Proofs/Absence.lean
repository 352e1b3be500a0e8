/-
Failures count as absence.

The source, the locator, the generators and the probe of a catalog may fail
whenever they like. `Catalog.withoutFailures` is the catalog that cannot tell: a
load that fails answers that nothing is stored there, and a generator that fails
or was never registered answers with a location that does not exist. Whatever is
resolved in the one catalog is resolved in the other, with the same memory
afterwards. A walk asks a catalog for children and commands only, so every line
leads to the same place, and a session gets the same answers
(`Engine.answers_withoutFailures`).

In a list of locations the ones that fail are passed over
(`Catalog.run_generated?_of_failed`).
-/
import CommandCompletion.Proofs.Independence
import CommandCompletion.Proofs.Stopping

set_option autoImplicit false

namespace CommandCompletion

variable {σ : Type}

/-! ## Collaborators that do not fail -/

/-- What failed is not there: a failure becomes the answer that nothing was found, and every other
answer stays. -/
def orNothing : Except Failure (Option Supply) → Except Failure (Option Supply)
  | .ok supply? => .ok supply?
  | .error _ => .ok none

/-- Answers that nothing is stored under a key where the source fails. What happens outside in
between is the same. -/
def Source.withoutFailures (source : Source σ) : Source σ where
  keys := source.keys
  load key := orNothing <$> source.load key

/-- Answers that there is no document where the locator fails. -/
def Locator.withoutFailures (locator : Locator σ) : Locator σ where
  load path name := orNothing <$> locator.load path name

/-- Answers with a location, which may depend on what is outside at the moment, and does nothing
else. -/
def Generator.pointing (missing : σ → Location) : Generator σ where
  generate _ _ := return .ok (.location (missing (← get)))

/-- Answers with a location where the generator fails, after all that the generator did outside. -/
def Generator.withoutFailures (missing : σ → Location) (generator : Generator σ) :
    Generator σ where
  generate word probe := do
    match ← generator.generate word probe with
    | .ok answer => return .ok answer
    | .error _ => return .ok (.location (missing (← get)))

/-- What is done with an answer may be done outside, before the memory comes in. -/
theorem Recall.outside_map {α β : Type} (f : α → β) (action : StateM σ α) :
    Recall.outside (f <$> action) = f <$> Recall.outside action := rfl

namespace Catalog

open Recall (outside_map)

variable {catalog other : Catalog σ} {missing : σ → Location} {unregistered : List String}

/-- The catalog in which nothing fails. A generator that would, or that is among
the `unregistered` ones, points to a location that is `missing`. -/
def withoutFailures (catalog : Catalog σ) (missing : σ → Location) (unregistered : List String) :
    Catalog σ where
  source := catalog.source.withoutFailures
  generators :=
    catalog.generators.map (fun (name, generator) => (name, generator.withoutFailures missing)) ++
      unregistered.map fun name => (name, .pointing missing)
  locator := catalog.locator.withoutFailures
  probe := catalog.probe

/-- Nothing is stored at the locations that are missing, and to look there has no effect. So a
generator that points there comes to nothing, which is all that is said of one that failed
(specification, § E1.1). -/
def IsMissing (catalog : Catalog σ) (missing : σ → Location) : Prop :=
  ∀ world, (catalog.loadLocation (missing world)).run world = (.ok none, world)

/-! ## Loading -/

/-- What failed supplies as little as what is not there. This is the one place where the two are
told apart and then treated alike. -/
theorem supplied?_orNothing (answer : Except Failure (Option Supply)) :
    supplied? (orNothing answer) = supplied? answer := by
  cases answer <;> rfl

/-- Loading under a key asks the source alone. -/
theorem loadReference_withoutFailures (key : String) :
    (catalog.withoutFailures missing unregistered).loadReference key =
      orNothing <$> catalog.loadReference key := rfl

/-- Loading at a location asks the source or the locator, of which neither fails. -/
theorem loadLocation_withoutFailures (location : Location) :
    (catalog.withoutFailures missing unregistered).loadLocation location =
      orNothing <$> catalog.loadLocation location := by
  cases location <;> rfl

/-- Of several locations the same grammars are loaded, since only what is supplied counts. -/
theorem loadLocations_withoutFailures (locations : List Location) :
    (catalog.withoutFailures missing unregistered).loadLocations locations =
      catalog.loadLocations locations := by
  induction locations with
  | nil => rfl
  | cons location locations ih =>
    rw [loadLocations, loadLocations, loadLocation_withoutFailures, bind_map_left, ih]
    simp only [supplied?_orNothing]

/-- What a generator answered comes to the same, a fragment without being loaded and locations as
above. -/
theorem generated?_withoutFailures (word : String) (generated : Generated) :
    (catalog.withoutFailures missing unregistered).generated? word generated =
      catalog.generated? word generated := by
  cases generated with
  | fragment fragment => rfl
  | location location =>
    rw [generated?, generated?, loadLocation_withoutFailures, bind_map_left]
    simp only [supplied?_orNothing]
  | locations locations => rw [generated?, generated?, loadLocations_withoutFailures]

/-- A generator is registered under the same name when it does not fail. -/
theorem lookup_map_withoutFailures (generators : List (String × Generator σ)) (name : String) :
    (generators.map fun (name, generator) =>
        (name, Generator.withoutFailures missing generator)).lookup name =
      (generators.lookup name).map (Generator.withoutFailures missing) := by
  induction generators with
  | nil => rfl
  | cons first rest ih =>
    rw [List.map_cons, List.lookup_cons, List.lookup_cons, ih]
    cases name == first.1 <;> rfl

/-- Registered generators are looked up first, so one of the same name among the others is not
reached. -/
theorem lookup_of_registered {generator : Generator σ} {name : String}
    (h : catalog.generators.lookup name = some generator) :
    (catalog.withoutFailures missing unregistered).generators.lookup name =
      some (generator.withoutFailures missing) := by
  rw [withoutFailures, List.lookup_append, lookup_map_withoutFailures, h]
  rfl

/-- A name that is not registered has a generator in the new catalog if it was listed there, and
none otherwise. -/
theorem lookup_of_unregistered {name : String} (h : catalog.generators.lookup name = none) :
    (catalog.withoutFailures missing unregistered).generators.lookup name =
      if name ∈ unregistered then some (Generator.pointing missing) else none := by
  rw [withoutFailures, List.lookup_append, lookup_map_withoutFailures, h, Option.map_none,
    Option.none_or]
  -- A name of the list is found in it, and any other name stands in neither.
  split
  · rename_i hmem
    exact List.lookup_graph _ hmem
  · rename_i hmem
    rw [List.lookup_eq_none_iff]
    rintro _ hentry
    obtain ⟨other, hother, rfl⟩ := List.mem_map.mp hentry
    have hne : name ≠ other := fun h => hmem (h ▸ hother)
    simpa using hne

section Missing

variable (hmissing : (catalog.withoutFailures missing unregistered).IsMissing missing)

include hmissing

/-- A generator that points to where nothing is comes to nothing. -/
theorem run_generated?_missing (word : String) (world : σ) :
    ((catalog.withoutFailures missing unregistered).generated? word
      (.location (missing world))).run world = (none, world) := by
  rw [generated?, StateT.run_bind, hmissing world]
  rfl

/-- **A generator comes to the same**, whether it answers, fails or is not there: in the last two
cases it comes to nothing in both catalogs, after the same effects. -/
theorem generate?_withoutFailures (name word : String) :
    (catalog.withoutFailures missing unregistered).generate? name word =
      catalog.generate? name word := by
  cases hlookup : catalog.generators.lookup name with
  | some generator =>
    rw [generate?, generate?, generator?, generator?, lookup_of_registered hlookup, hlookup]
    dsimp only
    rw [Generator.withoutFailures, bind_assoc]
    apply bind_congr
    intro answer
    -- An answer is kept; a failure becomes a location where nothing is.
    cases answer with
    | ok generated =>
      rw [pure_bind]
      exact generated?_withoutFailures word generated
    | error failure =>
      funext world
      exact run_generated?_missing hmissing word world
  | none =>
    rw [generate?, generate?, generator?, generator?, lookup_of_unregistered hlookup, hlookup]
    by_cases hmem : name ∈ unregistered
    · rw [if_pos hmem]
      funext world
      exact run_generated?_missing hmissing word world
    · rw [if_neg hmem]

/-- So does every loader, of which there are three kinds. -/
theorem loadFragment_withoutFailures (word : String) (loader : Loader CatalogNode) :
    (catalog.withoutFailures missing unregistered).loadFragment word loader =
      catalog.loadFragment word loader := by
  cases loader with
  | inline fragment => rfl
  | reference key =>
    rw [loadFragment, loadFragment, loadReference_withoutFailures, outside_map, bind_map_left]
    simp only [supplied?_orNothing]
  | generator name => rw [loadFragment, loadFragment, generate?_withoutFailures hmissing]

/-- A node is resolved to the same, since resolving asks for its fragment only. -/
theorem resolve_withoutFailures (node : CatalogNode) (word : String) :
    (catalog.withoutFailures missing unregistered).resolve node word =
      catalog.resolve node word := by
  rw [resolve, resolve]
  simp only [loadFragment_withoutFailures hmissing]

/-- A command is loaded to the same; what is listed of the source is not changed. -/
theorem loadRoot_withoutFailures (name : String) :
    (catalog.withoutFailures missing unregistered).loadRoot name = catalog.loadRoot name := by
  have hnames : (catalog.withoutFailures missing unregistered).rootNames = catalog.rootNames := rfl
  -- What is not listed is not loaded in either catalog.
  rw [loadRoot, loadRoot, hnames, loadReference_withoutFailures, outside_map, bind_map_left]
  simp only [supplied?_orNothing, resolve_withoutFailures hmissing]

end Missing

/-! ## Walks -/

/-- All that is asked of a catalog is answered alike, with the same effects. Nothing is said of how
the answers are found. -/
structure AnswersLike (catalog other : Catalog σ) : Prop where
  rootNames : catalog.rootNames = other.rootNames
  resolve : ∀ node word, catalog.resolve node word = other.resolve node word
  loadRoot : ∀ name, catalog.loadRoot name = other.loadRoot name

/-- The two catalogs answer alike: this is what the first half of the module was for. -/
theorem answersLike_withoutFailures
    (hmissing : (catalog.withoutFailures missing unregistered).IsMissing missing) :
    (catalog.withoutFailures missing unregistered).AnswersLike catalog where
  rootNames := rfl
  resolve := resolve_withoutFailures hmissing
  loadRoot := loadRoot_withoutFailures hmissing

/-- A child is looked up in its parent, which both are given, and then resolved. -/
theorem AnswersLike.resolveChild (h : catalog.AnswersLike other) (parent : CatalogNode)
    (word : String) : catalog.resolveChild parent word = other.resolveChild parent word := by
  rw [Catalog.resolveChild, Catalog.resolveChild]
  simp only [h.resolve]

end Catalog

namespace Walk

variable {catalog other : Catalog σ} {directory : String} {shell : Shell}

/-- A turn asks for a child or a command, if for anything, so it is the same in both catalogs. -/
theorem decide_congr (h : catalog.AnswersLike other) (walk : Walk) :
    walk.decide catalog directory shell = walk.decide other directory shell := by
  unfold decide decideArgument decideCommand decideValue
  simp only [h.resolveChild, h.loadRoot]

/-- So is a whole run, by induction on what is left to walk. -/
theorem run_congr (h : catalog.AnswersLike other) (walk : Walk) :
    run catalog directory shell walk = run other directory shell walk := by
  induction hmeasure : walk.measure using Nat.strongRecOn generalizing walk with
  | ind measure ih =>
    rw [run, run, decide_congr h]
    apply bind_congr
    intro turn
    -- Only a turn that goes on leaves something to compare.
    cases turn with
    | go move smaller =>
      dsimp only
      rw [ih _ (hmeasure ▸ smaller) _ rfl]
    | arrive context => rfl
    | refuse => rfl
    | lost reason => rfl

end Walk

/-- And so is the place that a line leads to. -/
theorem Catalog.locate_congr {catalog other : Catalog σ} (h : catalog.AnswersLike other)
    (directory : String) (shell : Shell) (words : List Word) (root : CatalogNode) :
    catalog.locate directory shell words root = other.locate directory shell words root := by
  rw [Catalog.locate, Catalog.locate, Walk.run_congr h]

/-! ## Answers -/

/-- What happens in a session: a request, or anything at all outside, where files and programs may
change between requests. -/
inductive Event (σ : Type) where
  /-- Suggestions are asked for. -/
  | request (request : Request)
  /-- Something changes outside. -/
  | outside (change : σ → σ)

namespace Engine

variable {engine : Engine σ} {catalog other : Catalog σ} {missing : σ → Location}
variable {unregistered : List String}

/-- What the requests of a session are answered, in order. Each is answered from the memory that
those before it left behind. -/
def answers (engine : Engine σ) (memory : Memory σ) :
    List (Event σ) → List (Except Failure (Option Suggestions))
  | [] => []
  | .request request :: events =>
    engine.answer memory request :: answers engine (engine.afterRequest memory request) events
  | .outside change :: events =>
    answers engine { memory with world := change memory.world } events

/-- The engine that works with the catalog in which nothing fails. -/
def withoutFailures (engine : Engine σ) (missing : σ → Location) (unregistered : List String) :
    Engine σ :=
  { engine with catalog := engine.catalog.withoutFailures missing unregistered }

/-- The same place is reached, with or without a grammar for the command. -/
theorem locate_withoutFailures
    (hmissing : (engine.withoutFailures missing unregistered).catalog.IsMissing missing)
    (home : Option String) (shell : Shell) (cwd line : String) (typed : TypedLine) :
    (engine.withoutFailures missing unregistered).locate home shell cwd line typed =
      engine.locate home shell cwd line typed := by
  have hlike := Catalog.answersLike_withoutFailures hmissing
  have hcommand : (engine.withoutFailures missing unregistered).command? typed =
      engine.command? typed := by
    unfold command?
    cases typed.earlier with
    | nil => rfl
    | cons command rest => exact hlike.loadRoot command.text
  rw [locate_eq, locate_eq, hcommand]
  apply bind_congr
  intro root?
  -- The walk starts at the command's grammar, or at one of the catalog's own.
  cases root? with
  | some root =>
    unfold locateFrom
    apply bind_congr
    intro host
    dsimp only
    rw [← Catalog.locate_congr hlike]
    rfl
  | none =>
    unfold locateFrom
    dsimp only
    rw [← Catalog.locate_congr hlike]
    rfl

/-- A request is answered the same and leaves the same behind, since the recommender only looks at
the place and the files. -/
theorem suggest_withoutFailures
    (hmissing : (engine.withoutFailures missing unregistered).catalog.IsMissing missing)
    (home : Option String) (shell : Shell) (cwd line : String) :
    (engine.withoutFailures missing unregistered).suggest home shell cwd line =
      engine.suggest home shell cwd line := by
  unfold suggest
  simp only [locate_withoutFailures hmissing]
  rfl

/-- Looking for the place of a line never fails: the walk stops, is never `lost`, and comes to a
place or to none. -/
theorem exists_ok_of_locate {home : Option String} {shell : Shell} {cwd line : String}
    {typed : TypedLine} {memory after : Memory σ}
    {place : Except Failure (Option (Context Nat) × Nat)}
    (h : (engine.locate home shell cwd line typed).run memory = (place, after)) :
    ∃ found, place = .ok found := by
  rw [locate_eq] at h
  obtain ⟨root?, loaded, -, h⟩ := Recall.exists_of_run_bind h
  -- A walk finds the place either way; with a grammar the files are looked at before it.
  cases root? with
  | some root =>
    obtain ⟨host, seen, -, h⟩ := Recall.exists_of_run_bind h
    obtain ⟨found, walked, hfound, h⟩ := Recall.exists_of_run_bind h
    obtain ⟨context?, rfl⟩ := Catalog.exists_ok_of_locate hfound
    cases h
    exact ⟨_, rfl⟩
  | none =>
    obtain ⟨found, walked, hfound, h⟩ := Recall.exists_of_run_bind h
    obtain ⟨context?, rfl⟩ := Catalog.exists_ok_of_locate hfound
    cases h
    exact ⟨_, rfl⟩

/-- Every request is answered, if only with no suggestions (specification, § 7). -/
theorem exists_ok_of_answer (memory : Memory σ) (request : Request) :
    ∃ suggestions?, engine.answer memory request = .ok suggestions? := by
  obtain ⟨⟨answer, after⟩, hrun⟩ : ∃ result,
      (engine.suggest request.home request.shell request.cwd request.line).run memory = result :=
    ⟨_, rfl⟩
  rw [Engine.answer, hrun]
  unfold suggest at hrun
  -- Without words there is nothing to look for.
  cases htyped : TypedLine.ofLine? request.shell request.line with
  | none =>
    rw [htyped] at hrun
    cases hrun
    exact ⟨none, rfl⟩
  | some typed =>
    rw [htyped] at hrun
    obtain ⟨place, walked, hplace, hrun⟩ := Recall.exists_of_run_bind hrun
    obtain ⟨host, seen, -, hrun⟩ := Recall.exists_of_run_bind hrun
    obtain ⟨found, rfl⟩ := exists_ok_of_locate hplace
    cases hrun
    exact ⟨_, rfl⟩

/-- Every request of a session is, by induction on what happens in it. -/
theorem exists_ok_of_mem_answers {events : List (Event σ)} {memory : Memory σ}
    {answer : Except Failure (Option Suggestions)} (h : answer ∈ engine.answers memory events) :
    ∃ suggestions?, answer = .ok suggestions? := by
  induction events generalizing memory with
  | nil => cases h
  | cons event events ih =>
    cases event with
    | request request =>
      rcases List.mem_cons.mp h with rfl | hlater
      · exact exists_ok_of_answer memory request
      · exact ih hlater
    | outside change => exact ih h

/-- One request is answered alike and leaves the same behind, and so do all, by induction on the
session with the memory left arbitrary. -/
theorem answers_congr
    (hmissing : (engine.withoutFailures missing unregistered).catalog.IsMissing missing)
    (memory : Memory σ) (events : List (Event σ)) :
    (engine.withoutFailures missing unregistered).answers memory events =
      engine.answers memory events := by
  induction events generalizing memory with
  | nil => rfl
  | cons event events ih =>
    cases event with
    | request request =>
      rw [answers, answers, answer, answer, afterRequest, afterRequest,
        suggest_withoutFailures hmissing, ih]
    | outside change => exact ih _

end Engine

/-! ## Several locations -/

namespace Catalog

variable {catalog : Catalog σ}

variable {before after : List Location} {start middle late final : σ} {loaded rest : List Grammar}

/-- Locations are loaded one after the other, so loading two lists is loading the first and then the
second. -/
theorem loadLocations_append (before after : List Location) :
    catalog.loadLocations (before ++ after) = do
      let loaded ← catalog.loadLocations before
      let rest ← catalog.loadLocations after
      return loaded ++ rest := by
  induction before with
  | nil =>
    rw [List.nil_append, loadLocations, pure_bind]
    simp only [List.nil_append, bind_pure]
  | cons location before ih =>
    rw [List.cons_append, loadLocations, loadLocations, ih]
    simp only [bind_assoc, pure_bind, List.append_assoc]

/-- The same, with what is outside at each point named. -/
theorem run_loadLocations_append
    (hbefore : (catalog.loadLocations before).run start = (loaded, middle))
    (hafter : (catalog.loadLocations after).run middle = (rest, final)) :
    (catalog.loadLocations (before ++ after)).run start = (loaded ++ rest, final) := by
  have hboth : (catalog.loadLocations (before ++ after)).run start =
      let first := (catalog.loadLocations before).run start
      let second := (catalog.loadLocations after).run first.2
      (first.1 ++ second.1, second.2) := by
    rw [loadLocations_append]
    rfl
  rw [hboth, hbefore]
  dsimp only
  rw [hafter]

/-- A location that fails yields nothing and keeps nothing from being loaded. -/
theorem run_loadLocations_of_failed {location : Location} {failure : Failure}
    (hfailed : (catalog.loadLocation location).run middle = (.error failure, late))
    (hafter : (catalog.loadLocations after).run late = (rest, final)) :
    (catalog.loadLocations (location :: after)).run middle = (rest, final) := by
  rw [loadLocations, StateT.run_bind, hfailed]
  exact hafter

/-- What is meant by a word is looked for among what was loaded before a location
that failed, and then among what is loaded after it. -/
theorem run_generated?_of_failed {location : Location} {word : String} {failure : Failure}
    (hbefore : (catalog.loadLocations before).run start = (loaded, middle))
    (hfailed : (catalog.loadLocation location).run middle = (.error failure, late))
    (hafter : (catalog.loadLocations after).run late = (rest, final)) :
    (catalog.generated? word (.locations (before ++ location :: after))).run start =
      ((loaded.find? fun grammar => grammar.answersTo word).or
        (rest.find? fun grammar => grammar.answersTo word), final) := by
  have hrest : (catalog.loadLocations (location :: after)).run middle = (rest, final) :=
    run_loadLocations_of_failed hfailed hafter
  have hall : (catalog.loadLocations (before ++ location :: after)).run start =
      (loaded ++ rest, final) := run_loadLocations_append hbefore hrest
  rw [generated?, StateT.run_bind, hall, ← List.find?_append]
  rfl

end Catalog

/-! ## Sessions -/

namespace Engine

/-- **Failures are contained and count as absence** (specification, § E1.1, § E2.3). Every request
of a session is answered, and the answers are those of the session in which every load that failed
found nothing and every generator that failed or is `unregistered` pointed to where nothing is. A
location that fails keeps no later one from being chosen. The two sessions run in step: at each
point the memory is the same, so each request is answered alike. -/
theorem answers_withoutFailures (engine : Engine σ) (missing : σ → Location)
    (unregistered : List String)
    (hmissing : (engine.withoutFailures missing unregistered).catalog.IsMissing missing)
    (world : σ) (events : List (Event σ)) :
    (∀ answer ∈ engine.answers (engine.catalog.initialMemory world) events,
      ∃ suggestions?, answer = .ok suggestions?) ∧
    (engine.withoutFailures missing unregistered).answers
        ((engine.withoutFailures missing unregistered).catalog.initialMemory world) events =
      engine.answers (engine.catalog.initialMemory world) events ∧
    ∀ (before after : List Location) (location : Location) (word : String)
      (start middle late final : σ) (loaded rest : List Grammar) (failure : Failure),
      (engine.catalog.loadLocations before).run start = (loaded, middle) →
      (engine.catalog.loadLocation location).run middle = (.error failure, late) →
      (engine.catalog.loadLocations after).run late = (rest, final) →
        (engine.catalog.generated? word (.locations (before ++ location :: after))).run start =
          ((loaded.find? fun grammar => grammar.answersTo word).or
            (rest.find? fun grammar => grammar.answersTo word), final) := by
  refine ⟨?_, answers_congr hmissing _ events, ?_⟩
  · intro answer hanswer
    exact exists_ok_of_mem_answers hanswer
  · intro before after location word start middle late final loaded rest failure
    exact Catalog.run_generated?_of_failed

/-! A catalog whose first load fails, with a generator that fails, one that is
not registered, and one whose first location fails. -/

/-- The document of `deploy`, which has one child. -/
def deployGrammar : Grammar where
  id := ()
  names := ["deploy"]
  children := [{ id := (), names := ["prod"] }]

/-- Outside, the loads are counted, and the first one fails whatever it is for. -/
def unreliableEngine : Engine Nat := ofCatalog (fun _ => {}) {
  source := {
    keys := ["tool", "x/deploy"]
    load := fun key loads =>
      let documents : List (String × Supply) := [
        ("tool", .grammar {
          id := ()
          names := ["tool"]
          children := [
            { id := (), names := ["plugin"], loader := some (.generator "plugins") },
            { id := (), names := ["other"], loader := some (.generator "unheard") },
            { id := (), names := ["deploy"], loader := some (.generator "places") }] }),
        ("x/deploy", .grammar deployGrammar)]
      (if loads = 0 then .error (.file .notText) else .ok (documents.lookup key), loads + 1) }
  generators := [
    ("plugins", ⟨fun _ _ => return .error (.probeTimedOut "plugins" 5000)⟩),
    ("places", ⟨fun _ _ =>
      return .ok (.locations [.localFile none "deploy", .catalogEntry "x/deploy"])⟩)]
  probe := ⟨fun command _ => return .error (.probeNotStarted command "no commands")⟩ }

/-- The same line twice, since the first load fails, and one for each generator. -/
def unreliableSession : List (Event Nat) :=
  ["tool deploy ", "tool deploy ", "tool plugin ", "tool other "].map fun line =>
    .request { cwd := "/w", line := line }

/-- Where the load fails there are no suggestions, and the same line is answered when it is typed
again; the two other generators come to nothing. -/
theorem answers_withoutFailures_unreliable :
    (unreliableEngine.withoutFailures (fun _ => .localFile none "nowhere")
      ["unheard"]).catalog.IsMissing (fun _ => .localFile none "nowhere") ∧
    (unreliableEngine.answers (unreliableEngine.catalog.initialMemory 0) unreliableSession).map
      offeredNames = [[], ["prod"], [], []] ∧
    (unreliableEngine.withoutFailures (fun _ => .localFile none "nowhere") ["unheard"]).answers
        ((unreliableEngine.withoutFailures (fun _ => .localFile none "nowhere")
          ["unheard"]).catalog.initialMemory 0) unreliableSession =
      unreliableEngine.answers (unreliableEngine.catalog.initialMemory 0) unreliableSession ∧
    (unreliableEngine.catalog.generated? "deploy"
      (.locations [.localFile none "deploy", .catalogEntry "x/deploy"])).run 1 =
        (some deployGrammar, 2) := by
  have hmissing : (unreliableEngine.withoutFailures (fun _ => .localFile none "nowhere")
      ["unheard"]).catalog.IsMissing (fun _ => .localFile none "nowhere") := fun _ => rfl
  obtain ⟨-, hsame, hlocations⟩ := answers_withoutFailures unreliableEngine
    (fun _ => .localFile none "nowhere") ["unheard"] hmissing 0 unreliableSession
  refine ⟨hmissing, by decide +kernel, hsame, ?_⟩
  exact hlocations [] [.catalogEntry "x/deploy"] (.localFile none "deploy") "deploy" 1 1 1 2 []
    [deployGrammar] _ rfl rfl rfl

end Engine

end CommandCompletion
