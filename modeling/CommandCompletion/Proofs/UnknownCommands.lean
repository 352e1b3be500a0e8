/-
Lines whose command has no grammar.

Without a grammar the whole line, the command included, is walked down one of two
grammars of the catalog's own: the one that takes any number of paths if a new
word is to come, and the one whose children are all commands if a word is being
typed. Both meet the words that are there already.

The first takes them as paths, as long as none looks like an option, and then
offers what is in the directory. The second has no place for a word before the one
being typed: a name that is no command ends the walk, so that no names of commands
are offered after one (`Engine.suggest_without_grammar`). A name that is a command
but could not be loaded is looked up a second time, as a child, and if that does
come to something the line leads on from there.
-/
import CommandCompletion.Proofs.Ranking
import CommandCompletion.Proofs.Refusals
import CommandCompletion.Proofs.WordReplacement

set_option autoImplicit false

namespace CommandCompletion

/-! ## Ranking -/

namespace Suggestion

variable {candidate : Suggestion} {candidates : List Suggestion} {typed : String}

/-- Ranking loses nothing where a value has one candidate only: the candidate that is kept for a
value is then the one that was there. -/
theorem mem_rank_iff (hvalues : ∀ a ∈ candidates, ∀ b ∈ candidates,
    a.insertValue = b.insertValue → a = b) :
    candidate ∈ rank typed candidates ↔ candidate ∈ candidates := by
  constructor
  · exact mem_of_mem_rank
  · intro hmem
    obtain ⟨kept, hkept, hvalue⟩ := isRanked_rank.exists_kept candidate hmem
    rw [← hvalues kept (mem_of_mem_rank hkept) candidate hmem hvalue]
    exact hkept

end Suggestion

/-! ## What a directory offers -/

namespace Recommendation

variable {shell : Shell} {entries : List (String × Bool)} {candidate : Suggestion}

/-- An entry of a directory, as it is offered: a folder's name goes on with the separator that the
shell prefers, so that the path can be typed on. -/
def ofEntry (shell : Shell) (entry : String × Bool) : Suggestion where
  name := if entry.2 then entry.1.push shell.preferredSeparator else entry.1
  kind := .path

/-- An entry is hidden if its name begins with a dot. -/
def isHidden (entry : String × Bool) : Bool := Text.beginsWith "." entry.1

/-- Where nothing is typed, all entries fit that are not hidden: every name begins with the empty
text, and none of those that begin with a dot was asked for. -/
theorem ofListed?_empty (entry : String × Bool) :
    ofListed? shell "" false entry =
      if isHidden entry then none else some (ofEntry shell entry) := by
  obtain ⟨name, isFolder⟩ := entry
  have hfits : Text.beginsWith "" name = true := rfl
  have hdot : Text.beginsWith "." "" = false := rfl
  unfold ofListed? isHidden
  dsimp only
  rw [hfits, hdot]
  cases Text.beginsWith "." name <;> rfl

/-- What a directory offers where nothing is typed: each of its entries that is not hidden, and
nothing else. Paths with the same value are the same, so ranking loses none. -/
theorem mem_rank_listed_iff : candidate ∈
      Suggestion.rank "" (entries.filterMap (ofListed? shell "" false)) ↔
    ∃ entry ∈ entries, isHidden entry = false ∧ candidate = ofEntry shell entry := by
  have hlisted : ∀ c, c ∈ entries.filterMap (ofListed? shell "" false) ↔
      ∃ entry ∈ entries, isHidden entry = false ∧ c = ofEntry shell entry := by
    intro c
    rw [List.mem_filterMap]
    refine exists_congr fun entry => and_congr_right fun _ => ?_
    rw [ofListed?_empty]
    cases isHidden entry with
    | true => simp
    | false => simp [eq_comm]
  have hvalues : ∀ a ∈ entries.filterMap (ofListed? shell "" false),
      ∀ b ∈ entries.filterMap (ofListed? shell "" false),
        a.insertValue = b.insertValue → a = b := by
    intro a ha b hb hvalue
    obtain ⟨first, -, -, rfl⟩ := (hlisted a).mp ha
    obtain ⟨second, -, -, rfl⟩ := (hlisted b).mp hb
    -- A path is put on the line as it is named, so its name is its value.
    have hname : (ofEntry shell first).name = (ofEntry shell second).name := hvalue
    unfold ofEntry at hname ⊢
    dsimp only at hname
    rw [hname]
  rw [Suggestion.mem_rank_iff hvalues, hlisted]

end Recommendation

/-! ## Walking without a grammar -/

namespace Walk

variable {σ : Type} {catalog : Catalog σ} {directory : String} {shell : Shell}
variable {memory middle after : Memory σ} {walk last : Walk} {turns : List (Walk × Move)}
variable {word : Word} {rest tail : List Word}

/-! ### Paths -/

/-- A slot for any number of paths. -/
def pathSlot : Slot where
  name := "filepaths"
  isVariadic := true
  templates := [.filepaths]

/-- A walk that takes paths and has taken `accepted`. Its slot is variadic and filled, so it may end
there or go on. -/
def takingPaths (catalog : Catalog σ) (words accepted : List Word) : Walk where
  words := words
  node := catalog.filepathNode
  accepted := accepted
  stage := .arguments [pathSlot] false true false

/-- Words that are no options are taken as paths, by induction on these words: each leaves the walk
where it was with one more word taken. -/
theorem reaches_takingPaths {words accepted : List Word}
    (hwords : ∀ word ∈ words, word.complete = true ∧ word.isOption = false) :
    ∃ turns, Reaches catalog memory (takingPaths catalog (words ++ tail) accepted) turns
      (takingPaths catalog tail (accepted ++ words)) memory := by
  induction words generalizing accepted with
  | nil =>
    rw [List.append_nil]
    exact ⟨[], .here memory _⟩
  | cons word words ih =>
    obtain ⟨hcomplete, hplain⟩ := hwords word List.mem_cons_self
    obtain ⟨turns, hreaches⟩ : ∃ turns, Reaches catalog memory
        (takingPaths catalog (words ++ tail) (accepted ++ [word])) turns
        (takingPaths catalog tail (accepted ++ [word] ++ words)) memory :=
      ih fun other hother => hwords other (List.mem_cons_of_mem _ hother)
    rw [List.append_assoc] at hreaches
    -- The slot is variadic and filled already, so the walk looks for a child first.
    have hgoes : Goes catalog memory (takingPaths catalog (word :: words ++ tail) accepted)
        (.takeValue [pathSlot] false true false) memory :=
      .repeatSlot rfl rfl hcomplete (.missed rfl hplain rfl) rfl
    exact ⟨_, .go hgoes hreaches⟩

/-- The first word is one of the paths, by the turn that enters the slot and the one that fills it.
-/
theorem reaches_firstPath (hcomplete : word.complete = true) (hplain : word.isOption = false) :
    ∃ turns, Reaches catalog memory { words := word :: rest, node := catalog.filepathNode } turns
      (takingPaths catalog rest [word]) memory := by
  let start : Walk := { words := word :: rest, node := catalog.filepathNode }
  have hbegin : Goes catalog memory start .beginArguments memory :=
    .beginArguments rfl rfl hcomplete (.missed rfl hplain rfl) (List.cons_ne_nil _ _)
  -- Nothing was taken for the slot yet, so no child is looked for.
  have htake : Goes catalog memory (start.perform .beginArguments)
      (.takeValue [pathSlot] false true false) memory :=
    .repeatSlot rfl rfl hcomplete (.shut rfl) rfl
  exact ⟨_, .go hbegin (.go htake (.here memory _))⟩

/-- Up to the first option, all words are paths (specification, § 8): the first word fills the slot,
and the others repeat it. -/
theorem reaches_paths {words : List Word} (hne : words ≠ [])
    (hwords : ∀ word ∈ words, word.complete = true ∧ word.isOption = false) :
    ∃ turns, Reaches catalog memory { words := words ++ tail, node := catalog.filepathNode } turns
      (takingPaths catalog tail words) memory := by
  cases words with
  | nil => exact absurd rfl hne
  | cons word words =>
    obtain ⟨hcomplete, hplain⟩ := hwords word List.mem_cons_self
    obtain ⟨first, hfirst⟩ : ∃ turns, Reaches catalog memory
        { words := word :: (words ++ tail), node := catalog.filepathNode } turns
        (takingPaths catalog (words ++ tail) [word]) memory :=
      reaches_firstPath hcomplete hplain
    obtain ⟨more, hmore⟩ : ∃ turns, Reaches catalog memory
        (takingPaths catalog (words ++ tail) [word]) turns
        (takingPaths catalog tail ([word] ++ words)) memory :=
      reaches_takingPaths fun other hother => hwords other (List.mem_cons_of_mem _ hother)
    exact ⟨_, hfirst.trans hmore⟩

/-- An option among the words ends the walk, since the grammar of paths has none. The words before
the first option are taken, and the walk is refused there. -/
theorem run_paths_refused {words : List Word}
    (hcomplete : ∀ word ∈ words, word.complete = true)
    (hany : ∃ word ∈ words, word.isOption = true) :
    ∃ turns, (run catalog directory shell
      { words := words ++ tail, node := catalog.filepathNode }).run memory =
        ((turns, .refused), memory) := by
  -- The first of the options is where the walk ends.
  obtain ⟨option, hfirst⟩ := Option.isSome_iff_exists.mp (List.find?_isSome.mpr hany)
  obtain ⟨hoption, before, later, rfl, hbefore⟩ := List.find?_eq_some_iff_append.mp hfirst
  have hoptionComplete : option.complete = true :=
    hcomplete option (List.mem_append_right _ List.mem_cons_self)
  have hpaths : ∀ word ∈ before, word.complete = true ∧ word.isOption = false := fun word hmem =>
    ⟨hcomplete word (List.mem_append_left _ hmem), by simpa using hbefore word hmem⟩
  rw [List.append_assoc, List.cons_append]
  -- It is met at the command itself if no path was taken, and among the arguments otherwise.
  by_cases hnone : before = []
  · subst hnone
    exact ⟨[], run_of_ending (.here memory _)
      (decide_of_unknownOption rfl hoptionComplete rfl hoption rfl) rfl⟩
  · obtain ⟨turns, hreaches⟩ : ∃ turns, Reaches catalog memory
        { words := before ++ option :: (later ++ tail), node := catalog.filepathNode } turns
        (takingPaths catalog (option :: (later ++ tail)) before) memory :=
      reaches_paths hnone hpaths
    exact ⟨turns, run_of_ending hreaches
      (decide_of_unknownOption rfl hoptionComplete rfl hoption rfl) rfl⟩

/-! ### Commands -/

/-- Entering the first node forgets the word that led to it, so the place is that of the words
behind it, walked from the child. This needs a node without options, of which nothing is inherited.
-/
theorem locate_of_enter {node child : CatalogNode} (hcomplete : word.complete = true)
    (hplain : word.isOption = false) (hpersistent : word.isPersistent = false)
    (hoptions : node.options = [])
    (hchild : (catalog.resolveChild node word.text).run memory = (some child, after)) :
    (catalog.locate directory shell (word :: rest) node).run memory =
      (catalog.locate directory shell rest child).run after := by
  let start : Walk := { words := word :: rest, node := node }
  have hgoes : Goes catalog memory start (.enter child) after :=
    .enter rfl hcomplete rfl hplain hchild
  -- Nothing is inherited and nothing persists, so the walk goes on as if it began there.
  have hnext : start.perform (.enter child) = { words := rest, node := child } := by
    have hinherited : CommandOption.passedOn [] node.options = [] := by
      rw [hoptions]
      rfl
    have haccepted : ([word].filter fun word => word.isPersistent) = [] :=
      List.filter_cons_of_neg (by simp [hpersistent])
    simp only [start, perform, take, hinherited, List.nil_append, haccepted, Bool.false_eq_true,
      if_false, List.tail_cons]
  have hreaches : Reaches catalog memory start [(start, .enter child)]
      (start.perform (.enter child)) after := .go hgoes (.here after _)
  rw [hnext] at hreaches
  exact Catalog.locate_of_restart hreaches

end Walk

namespace Catalog

variable {σ : Type} {catalog : Catalog σ} {directory : String} {shell : Shell}
variable {memory after : Memory σ} {words : List Word} {root : CatalogNode}

/-- The grammar of all commands has a child for each of them and no other, so a name that no catalog
lists is not even looked for, and the memory stays as it is. -/
theorem resolveChild_of_unlisted {name : String} (h : name ∉ catalog.rootNames) :
    (catalog.resolveChild catalog.rootNode name).run memory = (none, memory) := by
  have hnone : catalog.rootGrammar.findChild? name = none := by
    refine List.find?_eq_none.mpr fun child hchild => ?_
    obtain ⟨listed, hlisted, rfl⟩ := List.mem_map.mp hchild
    intro hanswers
    have hsame : name = listed := List.mem_singleton.mp (List.contains_iff_mem.mp hanswers)
    exact h (hsame ▸ hlisted)
  have hchild : catalog.rootNode.findChild? name = none := by
    rw [← rootNode_plain, Node.findChild?_plain] at hnone
    exact Option.map_eq_none_iff.mp hnone
  unfold resolveChild
  rw [hchild]
  rfl

end Catalog

/-! ## Answers without a grammar -/

/-- The words of a line are not flagged as persistent: this is done by walking only (specification,
§ 3). -/
theorem TypedLine.unflagged {shell : Shell} {line : String} {typed : TypedLine}
    (h : TypedLine.ofLine? shell line = some typed) :
    ∀ word ∈ typed.earlier, word.isPersistent = false := by
  have hread : ∀ word ∈ (shell.readFrom 0 none line.toList).1, word.isPersistent = false := by
    intro word hmem
    obtain ⟨last, stop, rfl⟩ := Shell.exists_close_of_mem_readFrom hmem
    rfl
  rcases ofLine?_cases h with ⟨words, hwords, -, rfl⟩ | ⟨words, last, hwords, -, rfl⟩
  · rw [hwords] at hread
    exact hread
  · rw [hwords] at hread
    exact hread

/-- Between words, the word to come is empty, and it stands at the end of the line. -/
theorem TypedLine.current_of_betweenWords {shell : Shell} {line : String} {typed : TypedLine}
    (h : TypedLine.ofLine? shell line = some typed) (hbetween : typed.betweenWords = true) :
    typed.current = Word.emptyAt (Text.byteLength line.toList) := by
  rcases ofLine?_cases h with ⟨words, -, -, rfl⟩ | ⟨words, last, -, -, rfl⟩
  · rfl
  · cases hbetween

namespace Engine

open Recommendation

variable {σ : Type} {engine : Engine σ} {catalog : Catalog σ}
variable {home : Option String} {shell : Shell} {cwd line : String} {typed : TypedLine}
variable {command : Word} {rest : List Word} {commands : List String}
variable {memory loaded after : Memory σ}

/-- What is answered once a place is found, or none: the recommendations there, with the number of
characters to drop (specification, § 4.4, step 5). -/
def offer (engine : Engine σ) (home : Option String)
    (place : Except Failure (Option (Context Nat) × Nat)) :
    Recall σ (Except Failure (Option Suggestions)) := do
  let host ← engine.host home
  return place.map fun (context?, dropped) => do
    let context ← context?
    let candidates ← engine.recommender context (host.files.entryNames context.directory)
    return { candidates := candidates, charactersToDrop := dropped }

/-- A request finds the place of the line and offers what fits there. -/
theorem suggest_eq_offer (htyped : TypedLine.ofLine? shell line = some typed) :
    engine.suggest home shell cwd line =
      engine.locate home shell cwd line typed >>= engine.offer home := by
  unfold suggest
  rw [htyped]
  rfl

/-- Where the recommender has something for the place, that is what is answered. -/
theorem offer_of_recommended {context : Context Nat} {dropped : Nat}
    {candidates : List Suggestion}
    (h : engine.recommender context ((engine.files loaded.world).entryNames context.directory) =
      some candidates) :
    (engine.offer home (.ok (some context, dropped))).run loaded =
      (.ok (some { candidates := candidates, charactersToDrop := dropped }), loaded) := by
  show (Except.ok ((engine.recommender context
    ((engine.files loaded.world).entryNames context.directory)).bind fun candidates =>
      some ({ candidates := candidates, charactersToDrop := dropped } : Suggestions)), loaded) = _
  rw [h]
  rfl

/-- Where paths are expected and nothing is typed yet, the entries of the directory are offered and
nothing besides: the grammar of paths has neither children nor options. -/
theorem byGrammar_paths {commands : List String} {entries : List (String × Bool)}
    {context : Context Nat} (hexpected : context.expected = .value Walk.pathSlot true)
    (hnode : context.node = catalog.filepathNode) (hinherited : context.inherited = [])
    (htyped : context.typed = "") : byGrammar commands context entries =
      some (Suggestion.rank "" (entries.filterMap (ofListed? context.shell "" false))) := by
  have hnamed : childrenAndOptions context "" = [] := by
    unfold childrenAndOptions Context.availableOptions
    rw [hnode, hinherited]
    rfl
  have hvalues : slotValues commands entries context "" Walk.pathSlot =
      entries.filterMap (ofListed? context.shell "" false) := rfl
  unfold byGrammar candidates?
  rw [htyped, hexpected]
  dsimp only
  rw [hvalues, if_pos rfl, hnamed, List.append_nil]
  rfl

section Unloaded

variable (htyped : TypedLine.ofLine? shell line = some typed)
variable (hearlier : typed.earlier = command :: rest)
variable (hunloaded : (engine.catalog.loadRoot command.text).run memory = (none, loaded))

include htyped hearlier hunloaded

/-- Without a grammar, the whole line is walked, the command included: down the grammar of paths
between words, and down that of all commands within a word. -/
theorem suggest_of_unloaded {place : Except Failure (Option (Context Nat))}
    (hplace : (engine.catalog.locate cwd shell typed.words
      (if typed.betweenWords then engine.catalog.filepathNode else engine.catalog.rootNode)).run
        loaded = (place, after)) :
    (engine.suggest home shell cwd line).run memory =
      (engine.offer home
        (place.map fun context? => (context?, typed.current.rawLength line))).run after := by
  have hcommand : (engine.command? typed).run memory = (none, loaded) := by
    unfold command?
    rw [hearlier]
    exact hunloaded
  -- The second half walks all words, which is what it does without a node.
  have hlocated : (engine.locateFrom home shell cwd line typed none).run loaded =
      (place.map fun context? => (context?, typed.current.rawLength line), after) := by
    unfold locateFrom
    dsimp only
    rw [Recall.run_bind_of hplace]
    rfl
  rw [suggest_eq_offer htyped, locate_eq, bind_assoc, Recall.run_bind_of hcommand,
    Recall.run_bind_of hlocated]

/-- A walk that is refused leaves nothing to offer, which is an answer and no failure
(specification, § 7). -/
theorem suggest_of_refused
    (hrefused : ∃ turns, (Walk.run engine.catalog cwd shell {
      words := typed.words
      node := if typed.betweenWords then engine.catalog.filepathNode
        else engine.catalog.rootNode }).run loaded = ((turns, .refused), after)) :
    (engine.suggest home shell cwd line).run memory = (.ok none, after) := by
  obtain ⟨turns, hrun⟩ := hrefused
  exact (suggest_of_unloaded htyped hearlier hunloaded (Catalog.locate_of_refused hrun)).trans rfl

omit hunloaded in
/-- The command is the first word of the walk, and it is complete. -/
theorem command_first : typed.words = command :: (rest ++ [typed.current]) ∧
    command.complete = true ∧ command.isPersistent = false := by
  have hmem : command ∈ typed.earlier := by
    rw [hearlier]
    exact List.mem_cons_self
  have hcomplete := ((TypedLine.complete_of_ofLine? htyped).2 command hmem).1
  refine ⟨?_, hcomplete, TypedLine.unflagged htyped command hmem⟩
  unfold TypedLine.words
  rw [hearlier]
  rfl

/-- Between words that are no options, the directory is offered. The walk takes all words as paths
and ends before the empty one, where the slot may be filled once more. -/
theorem suggest_paths (hbetween : typed.betweenWords = true)
    (hplain : ∀ word ∈ typed.earlier, word.isOption = false)
    (hrecommender : engine.recommender = byGrammar commands) :
    ∃ candidates, (engine.suggest home shell cwd line).run memory =
        (.ok (some { candidates := candidates, charactersToDrop := 0 }), loaded) ∧
      ∀ candidate, candidate ∈ candidates ↔ ∃ entry ∈ (engine.files loaded.world).entryNames cwd,
        isHidden entry = false ∧ candidate = ofEntry shell entry := by
  have hcurrent := TypedLine.current_of_betweenWords htyped hbetween
  have hne : typed.earlier ≠ [] := by
    rw [hearlier]
    exact List.cons_ne_nil _ _
  obtain ⟨turns, hreaches⟩ : ∃ turns, Walk.Reaches engine.catalog loaded
      { words := typed.words, node := engine.catalog.filepathNode } turns
      (Walk.takingPaths engine.catalog [typed.current] typed.earlier) loaded :=
    Walk.reaches_paths hne fun word hmem =>
      ⟨((TypedLine.complete_of_ofLine? htyped).2 word hmem).1, hplain word hmem⟩
  let there := Walk.takingPaths engine.catalog [typed.current] typed.earlier
  let context := there.context cwd shell (.value Walk.pathSlot true)
  -- The word to come is not complete, so the walk ends before it.
  have harrives : there.Arrives cwd shell context := by
    refine ⟨?_, _, rfl, rfl⟩
    intro word hword
    cases hword
    rw [hcurrent]
    rfl
  have hplace : (engine.catalog.locate cwd shell typed.words
      (if typed.betweenWords then engine.catalog.filepathNode
        else engine.catalog.rootNode)).run loaded = (.ok (some context), loaded) := by
    rw [hbetween]
    exact Catalog.locate_eq_some_iff.mpr ⟨turns, Walk.run_of_reaches hreaches harrives⟩
  have htext : context.typed = "" := by
    show (if typed.current.isPath then _ else typed.current.text) = _
    rw [hcurrent]
    rfl
  have hdropped : typed.current.rawLength line = 0 := by
    rw [hcurrent]
    exact Word.rawLength_emptyAt line
  let entries := (engine.files loaded.world).entryNames cwd
  have hoffered : engine.recommender context entries =
      some (Suggestion.rank "" (entries.filterMap (ofListed? shell "" false))) := by
    rw [hrecommender]
    exact byGrammar_paths rfl rfl rfl htext
  refine ⟨_, ?_, fun candidate => mem_rank_listed_iff⟩
  rw [suggest_of_unloaded htyped hearlier hunloaded hplace, hdropped]
  exact offer_of_recommended hoffered

/-- Between words, an option leaves nothing to offer, wherever it stands. -/
theorem suggest_none_of_option (hbetween : typed.betweenWords = true)
    (hoption : ∃ word ∈ typed.earlier, word.isOption = true) :
    (engine.suggest home shell cwd line).run memory = (.ok none, loaded) := by
  have hcomplete : ∀ word ∈ typed.earlier, word.complete = true :=
    fun word hmem => ((TypedLine.complete_of_ofLine? htyped).2 word hmem).1
  refine suggest_of_refused htyped hearlier hunloaded ?_
  rw [hbetween]
  exact Walk.run_paths_refused hcomplete hoption

/-- No command is an option: the grammar of all commands is left at the first word. -/
theorem suggest_none_of_optionCommand (hbetween : typed.betweenWords = false)
    (hoption : command.isOption = true) :
    (engine.suggest home shell cwd line).run memory = (.ok none, loaded) := by
  obtain ⟨hwords, hcomplete, -⟩ := command_first htyped hearlier
  let start : Walk := { words := typed.words, node := engine.catalog.rootNode }
  have hdecide : (start.decide engine.catalog cwd shell).run loaded = (.refuse, loaded) :=
    Walk.decide_of_unknownOption hwords hcomplete rfl hoption rfl
  refine suggest_of_refused htyped hearlier hunloaded ?_
  rw [hbetween]
  exact ⟨[], Walk.run_of_ending (.here loaded start) hdecide rfl⟩

/-- A name that no command comes of leaves nothing to offer. The word is looked up as a child of the
grammar of all commands, and there is no slot that could take it. -/
theorem suggest_none_of_missed {resolved : Memory σ} (hbetween : typed.betweenWords = false)
    (hplain : command.isOption = false)
    (hmissed : (engine.catalog.resolveChild engine.catalog.rootNode command.text).run loaded =
      (none, resolved)) :
    (engine.suggest home shell cwd line).run memory = (.ok none, resolved) := by
  obtain ⟨hwords, hcomplete, -⟩ := command_first htyped hearlier
  let start : Walk := { words := typed.words, node := engine.catalog.rootNode }
  have hdecide : (start.decide engine.catalog cwd shell).run loaded = (.refuse, resolved) :=
    Walk.decide_of_unknownChild rfl hwords hcomplete hplain hmissed rfl
  refine suggest_of_refused htyped hearlier hunloaded ?_
  rw [hbetween]
  exact ⟨[], Walk.run_of_ending (.here loaded start) hdecide rfl⟩

/-- A command that comes to something on the second try leads on, as if the line had begun behind
it. -/
theorem suggest_of_resolved {child : CatalogNode} {resolved : Memory σ}
    {place : Except Failure (Option (Context Nat))} (hbetween : typed.betweenWords = false)
    (hplain : command.isOption = false)
    (hchild : (engine.catalog.resolveChild engine.catalog.rootNode command.text).run loaded =
      (some child, resolved))
    (hplace : (engine.catalog.locate cwd shell (rest ++ [typed.current]) child).run resolved =
      (place, after)) :
    (engine.suggest home shell cwd line).run memory =
      (engine.offer home
        (place.map fun context? => (context?, typed.current.rawLength line))).run after := by
  obtain ⟨hwords, hcomplete, hflag⟩ := command_first htyped hearlier
  refine suggest_of_unloaded htyped hearlier hunloaded ?_
  rw [hbetween, hwords]
  exact (Walk.locate_of_enter hcomplete hplain hflag rfl hchild).trans hplace

end Unloaded

/-- How a line is answered whose command has no grammar, in every case: between words and within a
word, by what the words look like and what the second look-up comes to. -/
structure AnswersUnloaded (engine : Engine σ) (home : Option String)
    (shell : Shell) (cwd line : String) (typed : TypedLine) (command : Word) (rest : List Word)
    (memory loaded : Memory σ) : Prop where
  /-- Between words, the directory is offered, unless a word looks like an option. -/
  paths : typed.betweenWords = true → (∀ word ∈ typed.earlier, word.isOption = false) →
    ∃ candidates, (engine.suggest home shell cwd line).run memory =
        (.ok (some { candidates := candidates, charactersToDrop := 0 }), loaded) ∧
      ∀ candidate, candidate ∈ candidates ↔ ∃ entry ∈ (engine.files loaded.world).entryNames cwd,
        isHidden entry = false ∧ candidate = ofEntry shell entry
  /-- Nothing is offered if one does. -/
  option : typed.betweenWords = true → (∃ word ∈ typed.earlier, word.isOption = true) →
    (engine.suggest home shell cwd line).run memory = (.ok none, loaded)
  /-- Within a word, nothing is offered after a name that is no command. -/
  unlisted : typed.betweenWords = false →
    command.isOption = true ∨ command.text ∉ engine.catalog.rootNames →
    (engine.suggest home shell cwd line).run memory = (.ok none, loaded)
  /-- A command that could not be loaded is looked up once more. -/
  unresolved : ∀ resolved, typed.betweenWords = false → command.isOption = false →
    (engine.catalog.resolveChild engine.catalog.rootNode command.text).run loaded =
      (none, resolved) →
    (engine.suggest home shell cwd line).run memory = (.ok none, resolved)
  /-- If that comes to something, the line leads on from there. -/
  resolved : ∀ child resolved place after, typed.betweenWords = false →
    command.isOption = false →
    (engine.catalog.resolveChild engine.catalog.rootNode command.text).run loaded =
      (some child, resolved) →
    (engine.catalog.locate cwd shell (rest ++ [typed.current]) child).run resolved =
      (place, after) →
    (engine.suggest home shell cwd line).run memory =
      (engine.offer home
        (place.map fun context? => (context?, typed.current.rawLength line))).run after

/-- **Without a grammar the words typed so far still count.** Paths are offered between words as
long as none of them looks like an option, and within a word nothing is, except where a command that
was not loaded comes to something after all. The specification would have the words before the
current one left out of this (§ 4.4, § 8); here the whole line is walked, so the command is in the
way. -/
theorem suggest_without_grammar (files : σ → Files) (catalog : Catalog σ)
    (htyped : TypedLine.ofLine? shell line = some typed)
    (hearlier : typed.earlier = command :: rest)
    (hunloaded : (catalog.loadRoot command.text).run memory = (none, loaded)) :
    AnswersUnloaded (ofCatalog files catalog) home shell cwd line typed command rest memory
      loaded where
  paths hbetween hplain := suggest_paths htyped hearlier hunloaded hbetween hplain rfl
  option hbetween hoption := suggest_none_of_option htyped hearlier hunloaded hbetween hoption
  unlisted hbetween hunlisted := by
    -- The walk is refused at the command either way, before the catalog is asked or after.
    by_cases hoption : command.isOption = true
    · exact suggest_none_of_optionCommand htyped hearlier hunloaded hbetween hoption
    · have hplain : command.isOption = false := by simpa using hoption
      have hname : command.text ∉ catalog.rootNames := by
        rcases hunlisted with h | h
        · exact absurd h hoption
        · exact h
      exact suggest_none_of_missed htyped hearlier hunloaded hbetween hplain
        (Catalog.resolveChild_of_unlisted hname)
  unresolved _ hbetween hplain hmissed :=
    suggest_none_of_missed htyped hearlier hunloaded hbetween hplain hmissed
  resolved _ _ _ _ hbetween hplain hchild hplace :=
    suggest_of_resolved htyped hearlier hunloaded hbetween hplain hchild hplace

/-! A catalog that knows `cd` alone. -/

/-- There is no grammar for this command, and looking for one is not remembered. -/
theorem loadRoot_hg :
    (folderEngine.catalog.loadRoot "hg").run spacedMemory = (none, spacedMemory) := rfl

/-- Between words, paths are offered: the line `hg ` in a directory with a folder. -/
theorem suggest_without_grammar_folder : ∃ candidates,
    (folderEngine.suggest none .bash "/w" "hg ").run spacedMemory =
      (.ok (some { candidates := candidates, charactersToDrop := 0 }), spacedMemory) ∧
    ofEntry .bash ("src", true) ∈ candidates := by
  have htyped : TypedLine.ofLine? .bash "hg " = some {
      earlier := [Word.ofText "hg" true]
      current := Word.emptyAt 3
      betweenWords := true } := by
    decide +kernel
  have hanswers : AnswersUnloaded folderEngine none .bash "/w" "hg " _ (Word.ofText "hg" true) []
      spacedMemory spacedMemory :=
    suggest_without_grammar _ _ htyped rfl loadRoot_hg
  obtain ⟨candidates, hsuggest, hcandidates⟩ := hanswers.paths rfl (by decide +kernel)
  refine ⟨candidates, hsuggest, (hcandidates _).mpr ⟨("src", true), ?_, rfl, rfl⟩⟩
  decide +kernel

/-- Within a word, `cd` is not offered though it begins with the `c` that is typed.
After an option, what is in the directory is not offered. -/
theorem suggest_offers_nothing :
    ((folderEngine.catalog.loadRoot "hg").run spacedMemory = (none, spacedMemory) ∧
      (TypedLine.ofLine? .bash "hg c").map (fun typed => typed.current.text) = some "c" ∧
      "cd" ∈ folderEngine.catalog.rootNames ∧ Text.beginsWith "c" "cd" = true ∧
      (folderEngine.suggest none .bash "/w" "hg c").run spacedMemory =
        (.ok none, spacedMemory)) ∧
    (TypedLine.ofLine? .bash "hg -v ").map (fun typed => typed.betweenWords) = some true ∧
      ("src", true) ∈ spacedMemory.world.files.entryNames "/w" ∧
      (folderEngine.suggest none .bash "/w" "hg -v ").run spacedMemory =
        (.ok none, spacedMemory) := by
  have hword : TypedLine.ofLine? .bash "hg c" = some {
      earlier := [Word.ofText "hg" true]
      current := { Word.ofText "c" false with span := ⟨3, 4⟩ }
      betweenWords := false } := by
    decide +kernel
  have hoption : TypedLine.ofLine? .bash "hg -v " = some {
      earlier := [Word.ofText "hg" true, { Word.ofText "-v" true with span := ⟨3, 5⟩ }]
      current := Word.emptyAt 6
      betweenWords := true } := by
    decide +kernel
  have hmissed : (folderEngine.catalog.resolveChild folderEngine.catalog.rootNode "hg").run
      spacedMemory = (none, spacedMemory) :=
    Catalog.resolveChild_of_unlisted (by decide +kernel)
  refine ⟨⟨loadRoot_hg, by rw [hword]; rfl, by decide +kernel, by decide +kernel, ?_⟩,
    by rw [hoption]; rfl, by decide +kernel, ?_⟩
  · exact suggest_none_of_missed hword rfl loadRoot_hg rfl (by decide +kernel) hmissed
  · exact suggest_none_of_option hoption rfl loadRoot_hg rfl (by decide +kernel)

end Engine

end CommandCompletion
