/-
What a request asks of the catalog.

A turn of a walk asks for what the word in front names, and only if that word is
complete (`Asks`). So a walk loads what its complete words name, however it ends
(`Walk.loads_of_run`), and a request for suggestions loads what the complete words
of its line name (`Engine.loads_of_suggest`): the word in progress is never among
the words that are looked up.
-/
import CommandCompletion.Engine
import CommandCompletion.Proofs.Loads
import CommandCompletion.Proofs.Progress
import CommandCompletion.Proofs.Splitting

set_option autoImplicit false

namespace CommandCompletion

variable {σ : Type}

/-! ## What a walk asks for -/

namespace Walk

variable {catalog : Catalog σ} {directory : String} {shell : Shell}
variable {memory middle after : Memory σ} {walk last : Walk} {move : Move}
variable {word : Word} {rest : List Word} {slot : Slot} {slots : List Slot}
variable {fromOption fromVariadic persist : Bool} {turns : List (Walk × Move)}

/-- What a turn asks of the catalog: nothing, or what the complete word in front names, as a child
and after that as a command. Turns that end the walk are included, and those are why `Goes` does not
do here: a word that is refused may have been looked up. -/
inductive Asks (catalog : Catalog σ) (memory : Memory σ) (walk : Walk) : Memory σ → Prop where
  | nothing : Asks catalog memory walk memory
  | child {word : Word} {rest : List Word} {child? : Option CatalogNode} {after : Memory σ}
      (hwords : walk.words = word :: rest) (hcomplete : word.complete = true)
      (hchild : (catalog.resolveChild walk.node word.text).run memory = (child?, after)) :
      Asks catalog memory walk after
  | root {word : Word} {rest : List Word} {root? : Option CatalogNode} {middle after : Memory σ}
      (hwords : walk.words = word :: rest) (hcomplete : word.complete = true)
      (hpasses : Passes catalog memory walk word middle)
      (hroot : (catalog.loadRoot word.text).run middle = (root?, after)) :
      Asks catalog memory walk after

theorem Passes.asks (h : Passes catalog memory walk word after)
    (hwords : walk.words = word :: rest) (hcomplete : word.complete = true) :
    Asks catalog memory walk after := by
  cases h with
  | shut => exact .nothing
  | missed _ _ hmissed => exact .child hwords hcomplete hmissed

theorem asks_of_decideCommand {hne : walk.words ≠ []} {hrank : rank walk.stage = 2}
    {turn : Turn walk} (hwords : walk.words = word :: rest) (hcomplete : word.complete = true)
    (h : (walk.decideCommand catalog word hne hrank).run memory = (turn, after)) :
    Asks catalog memory walk after := by
  unfold decideCommand at h
  split at h
  · cases h
    exact .nothing
  · obtain ⟨child?, middle, hchild, h⟩ := Recall.exists_of_run_bind h
    cases child? with
    | some child =>
      cases h
      exact .child hwords hcomplete hchild
    | none =>
      dsimp only at h
      split at h <;> (cases h; exact .child hwords hcomplete hchild)

theorem asks_of_decideValue {hne : walk.words ≠ []} {turn : Turn walk}
    (hwords : walk.words = word :: rest) (hcomplete : word.complete = true)
    (hpasses : Passes catalog memory walk word middle)
    (h : (walk.decideValue catalog word slot slots fromOption persist hne).run middle =
      (turn, after)) :
    Asks catalog memory walk after := by
  have hpassed := hpasses.asks hwords hcomplete
  unfold decideValue at h
  split at h
  · cases h
    exact hpassed
  · split at h
    · split at h
      · cases h
        exact hpassed
      · obtain ⟨root?, loaded, hroot, h⟩ := Recall.exists_of_run_bind h
        cases root? <;> (cases h; exact .root hwords hcomplete hpasses hroot)
    · cases h
      exact hpassed

theorem asks_of_decideArgument {hne : walk.words ≠ []} {hrank : 0 < rank walk.stage}
    {turn : Turn walk}
    (hstage : walk.stage = .arguments (slot :: slots) fromOption fromVariadic persist)
    (hwords : walk.words = word :: rest) (hcomplete : word.complete = true)
    (h : (walk.decideArgument catalog word slot slots fromOption fromVariadic persist hne hrank).run
      memory = (turn, after)) :
    Asks catalog memory walk after := by
  have hisOpen : walk.isOpen = allOptional (slot :: slots) fromVariadic := by
    simp only [isOpen, hstage]
  unfold decideArgument at h
  split at h
  · rename_i hopen
    rw [← hisOpen] at hopen
    split at h
    · cases h
      exact .nothing
    · rename_i hoption
      obtain ⟨child?, middle, hchild, h⟩ := Recall.exists_of_run_bind h
      cases child? with
      | some child =>
        cases h
        exact .child hwords hcomplete hchild
      | none =>
        exact asks_of_decideValue hwords hcomplete
          (.missed hopen (by simpa using hoption) hchild) h
  · rename_i hshut
    exact asks_of_decideValue hwords hcomplete (.shut (by rw [hisOpen]; simpa using hshut)) h

/-- However a turn comes out, it asked for what the complete word in front names or for nothing. The
stages are gone through as the program does; each has its lemma above. -/
theorem asks_of_decide {turn : Turn walk}
    (h : (walk.decide catalog directory shell).run memory = (turn, after)) :
    Asks catalog memory walk after := by
  unfold decide at h
  split at h
  · dsimp only at h
    split at h
    · cases h
      exact .nothing
    · rename_i hwords
      split at h
      · rename_i hcomplete
        exact asks_of_decideCommand hwords hcomplete h
      · cases h
        exact .nothing
  · cases h
    exact .nothing
  · rename_i hstage
    dsimp only at h
    split at h
    · cases h
      exact .nothing
    · rename_i hwords
      split at h
      · rename_i hcomplete
        exact asks_of_decideArgument hstage hwords hcomplete h
      · cases h
        exact .nothing
  · split at h <;> (cases h; exact .nothing)

theorem Goes.asks (h : Goes catalog memory walk move after) : Asks catalog memory walk after := by
  -- Where the walk is made does not matter for what it asks.
  -- A rule is what was decided, so this is the lemma about turns once more.
  have hdecided : (walk.decide catalog "" .bash).run memory = _ := decide_of_goes h
  exact asks_of_decide hdecided

/-- The texts of the words that are complete. -/
def completeTexts (words : List Word) : List String :=
  (words.filter fun word => word.complete).map fun word => word.text

theorem mem_completeTexts (hmem : word ∈ walk.words) (hcomplete : word.complete = true) :
    word.text ∈ completeTexts walk.words :=
  List.mem_map_of_mem (List.mem_filter.mpr ⟨hmem, hcomplete⟩)

/-- No turn gives words back, so what a later turn can ask for could be asked for from the start. -/
theorem completeTexts_perform (walk : Walk) (move : Move) :
    ∀ text ∈ completeTexts (walk.perform move).words, text ∈ completeTexts walk.words := by
  have hsub : (walk.perform move).words.Sublist walk.words := by
    cases move with
    | beginArguments | endArguments | beginOption => exact List.Sublist.refl _
    | enter | delegate => exact List.tail_sublist _
    | takeOption option persist =>
      show (walk.take persist).words.Sublist _
      rw [words_take]
      exact List.tail_sublist _
    | takeValue _ _ _ persist =>
      show (walk.take persist).words.Sublist _
      rw [words_take]
      exact List.tail_sublist _
  exact fun text hmem => ((hsub.filter _).map _).subset hmem

/-- What a turn asks for are loads named by the complete words of the walk. A command is looked up
in the memory that looking for a child has left, which makes two loads of one word. -/
theorem Asks.loads (h : Asks catalog memory walk after) (hnode : catalog.Holds memory walk.node) :
    catalog.Loads (completeTexts walk.words) memory after := by
  have named : ∀ {word : Word} {rest : List Word}, walk.words = word :: rest →
      word.complete = true → ∀ text ∈ [word.text], text ∈ completeTexts walk.words := by
    intro word rest hwords hcomplete text htext
    rw [List.mem_singleton.mp htext]
    exact mem_completeTexts (by rw [hwords]; exact List.mem_cons_self) hcomplete
  cases h with
  | nothing => exact .nothing _
  | child hwords hcomplete hchild =>
    exact (Catalog.loads_of_resolveChild hnode hchild).1.mono (named hwords hcomplete)
  | root hwords hcomplete hpasses hroot =>
    have hroot := (Catalog.loads_of_loadRoot hroot).mono (named hwords hcomplete)
    cases hpasses with
    | shut => exact hroot
    | missed _ _ hmissed =>
      have hchild := (Catalog.loads_of_resolveChild hnode hmissed).1
      exact (hchild.mono (named hwords hcomplete)).trans hroot

/-- A walk stands on nodes in use. -/
theorem Goes.holds (h : Goes catalog memory walk move after)
    (hnode : catalog.Holds memory walk.node) : catalog.Holds after (walk.perform move).node := by
  have hsame := hnode.mono h.extends
  have taken : ∀ persist, (walk.take persist).node = walk.node := by
    intro persist
    unfold take
    split <;> rfl
  cases h with
  | beginOption | beginArguments | endArguments => exact hsame
  | takeOption | repeatSlot | fillSlot =>
    show catalog.Holds _ (walk.take _).node
    rw [taken]
    exact hsame
  | enter _ _ _ _ hchild => exact (Catalog.loads_of_resolveChild hnode hchild).2 _ rfl
  | delegate _ _ _ _ _ _ _ hroot => exact Catalog.holds_of_loadRoot hroot

/-- A walk loads what its complete words name, stays on nodes in use, and names nothing else later
on. The three are proved together, since each turn needs that its node is in use. -/
theorem Reaches.loads (h : Reaches catalog memory walk turns last after)
    (hnode : catalog.Holds memory walk.node) :
    catalog.Loads (completeTexts walk.words) memory after ∧ catalog.Holds after last.node ∧
      ∀ text ∈ completeTexts last.words, text ∈ completeTexts walk.words := by
  induction h with
  | here => exact ⟨.nothing _, hnode, fun _ hmem => hmem⟩
  | @go memory middle after walk last move turns hgoes _ ih =>
    obtain ⟨hloads, hlast, hwords⟩ := ih (hgoes.holds hnode)
    have hfewer := completeTexts_perform walk move
    refine ⟨(hgoes.asks.loads hnode).trans (hloads.mono hfewer), hlast, ?_⟩
    exact fun text hmem => hfewer text (hwords text hmem)

/-- **A walk loads only what its complete words name**, however it ends. -/
theorem loads_of_run {ending : Ending} (hnode : catalog.Holds memory walk.node)
    (h : (run catalog directory shell walk).run memory = ((turns, ending), after)) :
    catalog.Loads (completeTexts walk.words) memory after := by
  obtain ⟨last, middle, turn, hreaches, hlast, -⟩ := exists_reaches_of_run h
  obtain ⟨hloads, hheld, hwords⟩ := hreaches.loads hnode
  exact hloads.trans (((asks_of_decide hlast).loads hheld).mono hwords)

end Walk

/-! ## What a request asks for -/

/-- The words of a line that are complete. -/
def Shell.completeWords (shell : Shell) (line : String) : List String :=
  Walk.completeTexts (shell.words line)

/-- A line ends between words, or in a word that its reading leaves open. In the first case the word
in progress is made up, empty and behind everything (specification, § 4.4, step 1). -/
theorem TypedLine.ofLine?_cases {shell : Shell} {line : String} {typed : TypedLine}
    (h : TypedLine.ofLine? shell line = some typed) :
    (∃ words, shell.readFrom 0 none line.toList = (words, none) ∧
      shell.words line = words ∧ typed = {
        earlier := words
        current := Word.emptyAt (Text.byteLength line.toList)
        betweenWords := true }) ∨
    ∃ words last, shell.readFrom 0 none line.toList = (words, some last) ∧
      shell.words line = words ++ [last.close (Text.byteLength line.toList) false] ∧ typed = {
        earlier := words
        current := last.close (Text.byteLength line.toList) false
        betweenWords := false } := by
  unfold ofLine? at h
  dsimp only at h
  rcases shell.readFrom_line_cases line with ⟨words, hread⟩ | ⟨words, last, hread⟩
  · have hwords : shell.words line = words := Shell.words_of_readFrom_none hread
    rw [hwords] at h
    left
    refine ⟨words, hread, hwords, ?_⟩
    split at h
    · cases h
    · rename_i last hlast
      have hmem : last ∈ (shell.readFrom 0 none line.toList).1 := by
        rw [hread]
        exact List.mem_of_getLast? hlast
      have hended : last.complete = true := Shell.complete_of_mem_readFrom hmem
      rw [if_pos hended] at h
      exact (Option.some.inj h).symm
  · have hwords : shell.words line = words ++ [last.close (Text.byteLength line.toList) false] :=
      Shell.words_of_readFrom_some hread
    rw [hwords] at h
    right
    refine ⟨words, last, hread, hwords, ?_⟩
    rw [List.getLast?_concat, List.dropLast_concat] at h
    exact (Option.some.inj h).symm

/-- The words before the one in progress are complete words of the line. -/
theorem TypedLine.complete_of_ofLine? {shell : Shell} {line : String} {typed : TypedLine}
    (h : TypedLine.ofLine? shell line = some typed) :
    typed.current.complete = false ∧
      ∀ word ∈ typed.earlier, word.complete = true ∧ word ∈ shell.words line := by
  have hended : ∀ word ∈ (shell.readFrom 0 none line.toList).1, word.complete = true :=
    fun word hmem => Shell.complete_of_mem_readFrom hmem
  rcases ofLine?_cases h with ⟨words, hread, hwords, rfl⟩ | ⟨words, last, hread, hwords, rfl⟩
  · rw [hread] at hended
    exact ⟨rfl, fun word hmem => ⟨hended word hmem, by rw [hwords]; exact hmem⟩⟩
  · rw [hread] at hended
    exact ⟨rfl, fun word hmem =>
      ⟨hended word hmem, by rw [hwords]; exact List.mem_append_left _ hmem⟩⟩

theorem completeTexts_subset {words : List Word} {shell : Shell} {line : String}
    (h : ∀ word ∈ words, word.complete = true → word ∈ shell.words line) :
    ∀ text ∈ Walk.completeTexts words, text ∈ shell.completeWords line := by
  intro text htext
  obtain ⟨word, hword, rfl⟩ := List.mem_map.mp htext
  obtain ⟨hmem, hcomplete⟩ := List.mem_filter.mp hword
  exact List.mem_map_of_mem (List.mem_filter.mpr ⟨h word hmem hcomplete, hcomplete⟩)

namespace Catalog

variable {catalog : Catalog σ} {memory after : Memory σ} {root : CatalogNode}

theorem loads_of_locate {directory : String} {shell : Shell} {words : List Word}
    {place : Except Failure (Option (Context Nat))} (hroot : Holds catalog memory root)
    (h : (catalog.locate directory shell words root).run memory = (place, after)) :
    Loads catalog (Walk.completeTexts words) memory after := by
  obtain ⟨⟨turns, ending⟩, middle, hrun, h⟩ := Recall.exists_of_run_bind h
  have hloads := Walk.loads_of_run hroot hrun
  cases ending <;> (cases h; exact hloads)

end Catalog

namespace Engine

variable {engine : Engine σ} {home : Option String} {shell : Shell} {cwd line : String}
variable {typed : TypedLine} {memory after : Memory σ}

/-- What is found out about a word as a path does not make it complete. -/
theorem complete_readAs (word : Word) (reading : PathReading) :
    (word.readAs reading).complete = word.complete := by
  unfold Word.readAs
  split <;> rfl

/-- The grammar of the command that a line begins with. -/
def command? (engine : Engine σ) (typed : TypedLine) : Recall σ (Option CatalogNode) :=
  match typed.earlier with
  | [] => pure none
  | command :: _ => engine.catalog.loadRoot command.text

/-- The place a line leads to, once its command was looked up. -/
def locateFrom (engine : Engine σ) (home : Option String) (shell : Shell) (cwd line : String)
    (typed : TypedLine) :
    Option CatalogNode → Recall σ (Except Failure (Option (Context Nat) × Nat))
  | some root => do
    let reading := PathReading.ofText (← engine.host home) shell cwd typed.current.text
    let words := typed.earlier.tail ++ [typed.current.readAs reading]
    let place ← engine.catalog.locate reading.directory shell words root
    return place.map fun context? =>
      (context?, charactersToDrop shell line typed.current reading)
  | none => do
    let grammar :=
      if typed.betweenWords then engine.catalog.filepathNode else engine.catalog.rootNode
    let place ← engine.catalog.locate cwd shell typed.words grammar
    return place.map fun context? => (context?, typed.current.rawLength line)

/-- A place is looked for in two steps: the command that the line begins with, and the walk below
it, or below the catalog's own trees if there is no grammar for it (specification, § 4.4, steps 3
and 4). -/
theorem locate_eq : engine.locate home shell cwd line typed =
    engine.command? typed >>= engine.locateFrom home shell cwd line typed := by
  obtain ⟨earlier, current, betweenWords⟩ := typed
  cases earlier with
  | nil => rfl
  | cons command rest =>
    refine bind_congr fun root? => ?_
    cases root? <;> rfl

theorem loads_of_command? {root? : Option CatalogNode}
    (htyped : TypedLine.ofLine? shell line = some typed)
    (h : (engine.command? typed).run memory = (root?, after)) :
    engine.catalog.Loads (shell.completeWords line) memory after ∧
      ∀ root, root? = some root → engine.catalog.Holds after root := by
  unfold command? at h
  cases hwords : typed.earlier with
  | nil =>
    rw [hwords] at h
    cases h
    exact ⟨.nothing _, by simp⟩
  | cons command rest =>
    rw [hwords] at h
    obtain ⟨hcomplete, hmem⟩ :=
      (TypedLine.complete_of_ofLine? htyped).2 command (by rw [hwords]; exact List.mem_cons_self)
    refine ⟨(Catalog.loads_of_loadRoot h).mono ?_, ?_⟩
    · intro text htext
      rw [List.mem_singleton.mp htext]
      exact List.mem_map_of_mem (List.mem_filter.mpr ⟨hmem, hcomplete⟩)
    · rintro root rfl
      exact Catalog.holds_of_loadRoot h

/-- Where a walk without a grammar begins. -/
theorem holds_own : engine.catalog.Holds memory
    (if typed.betweenWords = true then engine.catalog.filepathNode
      else engine.catalog.rootNode) := by
  split
  · exact (Catalog.Tree.paths).holds
  · exact (Catalog.Tree.commands).holds

theorem loads_of_locateFrom {root? : Option CatalogNode}
    {place : Except Failure (Option (Context Nat) × Nat)}
    (htyped : TypedLine.ofLine? shell line = some typed)
    (hroot : ∀ root, root? = some root → engine.catalog.Holds memory root)
    (h : (engine.locateFrom home shell cwd line typed root?).run memory = (place, after)) :
    engine.catalog.Loads (shell.completeWords line) memory after := by
  obtain ⟨hcurrent, hearlier⟩ := TypedLine.complete_of_ofLine? htyped
  cases root? with
  | some root =>
    obtain ⟨host, seen, hhost, h⟩ := Recall.exists_of_run_bind h
    cases hhost
    obtain ⟨place', walked, hplace, h⟩ := Recall.exists_of_run_bind h
    cases h
    refine (Catalog.loads_of_locate (hroot root rfl) hplace).mono ?_
    refine completeTexts_subset fun word hmem hcomplete => ?_
    -- The word in progress is walked too, but it is not complete.
    rcases List.mem_append.mp hmem with htail | hlast
    · exact (hearlier word (List.mem_of_mem_tail htail)).2
    · rw [List.mem_singleton.mp hlast, complete_readAs, hcurrent] at hcomplete
      cases hcomplete
  | none =>
    obtain ⟨place', walked, hplace, h⟩ := Recall.exists_of_run_bind h
    cases h
    refine (Catalog.loads_of_locate holds_own hplace).mono ?_
    refine completeTexts_subset fun word hmem hcomplete => ?_
    rcases List.mem_append.mp hmem with hword | hlast
    · exact (hearlier word hword).2
    · rw [List.mem_singleton.mp hlast, hcurrent] at hcomplete
      cases hcomplete

/-- Two places that are the same but for something that neither their directory nor
what is recommended there depends on are offered the same. -/
theorem offered_of_map_eq {β : Type} {forget : Context Nat → β} {files : Files} {dropped : Nat}
    (hforget : ∀ a b, forget a = forget b → a.directory = b.directory ∧
      ∀ entries, engine.recommender a entries = engine.recommender b entries)
    {place place' : Option (Context Nat)} (hsame : place.map forget = place'.map forget) :
    (do
      let context ← place
      let candidates ← engine.recommender context (files.entryNames context.directory)
      return { candidates := candidates, charactersToDrop := dropped } : Option Suggestions) =
    (do
      let context ← place'
      let candidates ← engine.recommender context (files.entryNames context.directory)
      return { candidates := candidates, charactersToDrop := dropped }) := by
  cases place with
  | none =>
    rw [Option.map_none, eq_comm, Option.map_eq_none_iff] at hsame
    rw [hsame]
  | some context =>
    rw [Option.map_some, eq_comm, Option.map_eq_some_iff] at hsame
    obtain ⟨context', rfl, hcontext⟩ := hsame
    obtain ⟨hdirectory, hrecommended⟩ := hforget context' context hcontext
    show (engine.recommender context (files.entryNames context.directory)).bind _ =
      (engine.recommender context' (files.entryNames context'.directory)).bind _
    rw [hdirectory, hrecommended]

/-- **A request for suggestions loads only what the complete words of its line name.** The word in
progress is handed to the walk with the others, but a turn looks up complete words only, so pressing
another key never loads what the half-typed word happens to name. -/
theorem loads_of_suggest {answer : Except Failure (Option Suggestions)}
    (h : (engine.suggest home shell cwd line).run memory = (answer, after)) :
    engine.catalog.Loads (shell.completeWords line) memory after := by
  unfold suggest at h
  split at h
  · cases h
    exact .nothing _
  · rename_i typed htyped
    obtain ⟨place, middle, hplace, h⟩ := Recall.exists_of_run_bind h
    obtain ⟨host, seen, hhost, h⟩ := Recall.exists_of_run_bind h
    cases hhost
    cases h
    -- The files are read for the offer only, after all loads.
    rw [locate_eq] at hplace
    obtain ⟨root?, loaded, hroot, hplace⟩ := Recall.exists_of_run_bind hplace
    obtain ⟨hfirst, hheld⟩ := loads_of_command? htyped hroot
    exact hfirst.trans (loads_of_locateFrom htyped hheld hplace)

end Engine

end CommandCompletion
