/-
Which candidates are offered at a place, and which are not.

`Recommendation.Eligible` says of a candidate that it may stand at the place of a
context: it names a child or an option that can be given there, or it is a value
for the slot whose turn it is. It is put together from what the grammar and the
directory hold and mentions none of the lists that the recommender goes through.

The recommender gathers exactly the eligible candidates (`mem_candidates_iff`).
What it offers are their insert values, each once, in strict rank order, and
nothing is offered only where the arguments of the node are used up
(`byGrammar_offers_eligible`).
-/
import CommandCompletion.Proofs.Ranking

set_option autoImplicit false

namespace CommandCompletion

/-! ## What was typed -/

/-- Begins with what was typed. -/
def StartsWith (typed name : String) : Prop := typed.toList <+: name.toList

theorem beginsWith_iff {typed name : String} :
    Text.beginsWith typed name = true ↔ StartsWith typed name := List.isPrefixOf_iff_prefix

/-- The first of the names that begins with what was typed. -/
def IsFirstMatch (typed : String) (names : List String) (name : String) : Prop :=
  StartsWith typed name ∧ ∃ earlier later, names = earlier ++ name :: later ∧
    ∀ other ∈ earlier, ¬ StartsWith typed other

namespace Context

variable {ι : Type}

/-- The slot that the next word may fill: the one that was reached, or the first of the node where
its slots are not filled. A word at a command is tried as the first argument (specification, § 4.3,
step 3d), so its values are offered beside children and options. -/
def currentSlot? (context : Context ι) : Option Slot :=
  match context.expected with
  | .value slot _ => some slot
  | .anything argsExhausted _ => if argsExhausted then none else context.node.args.head?

/-- Was given already: some word that counts is one of its aliases. -/
def HasGiven (context : Context ι) (option : CommandOption) : Prop :=
  ∃ word ∈ context.accepted, word.isOption = true ∧ word.text ∈ option.names

theorem isUsed_iff {context : Context ι} {option : CommandOption} :
    context.isUsed option = true ↔ context.HasGiven option := by
  unfold isUsed HasGiven
  simp only [List.any_eq_true, Bool.and_eq_true, CommandOption.answersTo, List.contains_iff_mem]

end Context

namespace Recommendation

variable {ι : Type} {commands : List String} {files : Files} {context : Context ι}
variable {slot : Slot} {candidate : Suggestion} {typed name : String} {names : List String}
variable {all : List Suggestion}

/-! ## Eligible candidates -/

/-- Names a child or an option that can be given: it is not hidden, it has a name that fits, and an
option was not given already or may be repeated (specification, § E2.5). -/
inductive Nameable (context : Context ι) : Suggestion → Prop where
  | child {child : Node ι} {name : String} (hmem : child ∈ context.node.children)
      (hvisible : child.hidden = false) (hname : IsFirstMatch context.typed child.names name) :
      Nameable context {
        name := name
        description := child.description
        kind := .subcommand
        priority := child.priority.getD defaultPriority }
  | option {option : CommandOption} {name : String} (hmem : option ∈ context.availableOptions)
      (hvisible : option.hidden = false)
      (hagain : ¬ context.HasGiven option ∨ option.isRepeatable = true)
      (hname : IsFirstMatch context.typed option.names name) :
      Nameable context {
        name := name
        description := option.description
        kind := .option
        priority := option.priority.getD defaultPriority }

/-- How an entry of a directory is written: a directory with a separator. -/
def entryName (shell : Shell) (name : String) (entry : Entry) : String :=
  if entry.isFolder then name.push shell.preferredSeparator else name

/-- Is a value for the slot: a choice that the grammar lists, the name of a command, or an entry of
the directory that the word in progress points to. Hidden entries need a dot to be typed, and a slot
for directories takes no files. -/
inductive Fills (commands : List String) (files : Files) (context : Context ι) (slot : Slot) :
    Suggestion → Prop where
  | choice {choice : Choice} (hmem : choice ∈ slot.choices)
      (hstarts : StartsWith context.typed choice.name) :
      Fills commands files context slot {
        name := choice.name
        description := choice.description
        kind := .argument
        priority := choice.priority.getD defaultPriority }
  | command {name : String} (hcommand : slot.isCommand = true) (hmem : name ∈ commands)
      (hstarts : StartsWith context.typed name) :
      Fills commands files context slot { name := name, kind := .subcommand }
  | entry {listed : List (String × Entry)} {name : String} {entry : Entry}
      (htemplates : slot.templates ≠ []) (hlisted : files.list context.directory = .ok listed)
      (hmem : (name, entry) ∈ listed) (hstarts : StartsWith context.typed name)
      (hdot : StartsWith "." name → StartsWith "." context.typed)
      (hfolder : entry.isFolder = true ∨ .filepaths ∈ slot.templates) :
      Fills commands files context slot {
        name := entryName context.shell name entry
        kind := .path }

/-- May stand at the place of the context. This is the specification of the recommender: it speaks
of the grammar, the commands and the files, and mentions no list of candidates and no order. -/
inductive Eligible (commands : List String) (files : Files) (context : Context ι) :
    Suggestion → Prop where
  | named {candidate : Suggestion} (hoffers : offersNamed context.expected = true)
      (hnamed : Nameable context candidate) : Eligible commands files context candidate
  | value {candidate : Suggestion} {slot : Slot} (hslot : context.currentSlot? = some slot)
      (hfills : Fills commands files context slot candidate) :
      Eligible commands files context candidate

/-- Every eligible candidate is inserted as it is shown. -/
theorem Eligible.insertValue_eq (h : Eligible commands files context candidate) :
    candidate.insertValue = candidate.name := by
  cases h with
  | named _ hnamed => cases hnamed <;> rfl
  | value _ hfills => cases hfills <;> rfl

/-! ## The sources of candidates -/

theorem matchingName?_eq_some_iff :
    matchingName? typed names = some name ↔ IsFirstMatch typed names name := by
  unfold matchingName? IsFirstMatch
  rw [List.find?_eq_some_iff_append, beginsWith_iff]
  simp only [Bool.not_eq_true', ← Bool.not_eq_true, beginsWith_iff]

/-- A suggestion under the first name that fits. -/
theorem map_matchingName?_eq_some_iff {suggest : String → Suggestion} :
    (matchingName? typed names).map suggest = some candidate ↔
      ∃ name, IsFirstMatch typed names name ∧ candidate = suggest name := by
  rw [Option.map_eq_some_iff]
  simp only [matchingName?_eq_some_iff, @eq_comm _ candidate]

theorem ofChild?_eq_some_iff {child : Node ι} :
    ofChild? typed child = some candidate ↔
      child.hidden = false ∧ ∃ name, IsFirstMatch typed child.names name ∧
        candidate = {
          name := name
          description := child.description
          kind := .subcommand
          priority := child.priority.getD defaultPriority } := by
  unfold ofChild?
  cases hhidden : child.hidden with
  | true => simp
  | false =>
    rw [if_neg Bool.false_ne_true, map_matchingName?_eq_some_iff]
    simp

/-- Given already and not repeatable is what keeps a visible option back. The condition of the
program is a disjunction of reasons to hide; it is turned into its negation first. -/
theorem ofOption?_eq_some_iff {option : CommandOption} :
    ofOption? context typed option = some candidate ↔
      option.hidden = false ∧ (¬ context.HasGiven option ∨ option.isRepeatable = true) ∧
        ∃ name, IsFirstMatch typed option.names name ∧
          candidate = {
            name := name
            description := option.description
            kind := .option
            priority := option.priority.getD defaultPriority } := by
  have hback : (option.hidden || (context.isUsed option && !option.isRepeatable)) = true ↔
      ¬ (option.hidden = false ∧ (¬ context.HasGiven option ∨ option.isRepeatable = true)) := by
    rw [← Context.isUsed_iff]
    cases option.hidden <;> cases context.isUsed option <;> cases option.isRepeatable <;> simp
  unfold ofOption?
  by_cases hoffered :
      option.hidden = false ∧ (¬ context.HasGiven option ∨ option.isRepeatable = true)
  · rw [if_neg (fun h => hback.mp h hoffered), map_matchingName?_eq_some_iff, ← and_assoc]
    exact (and_iff_right hoffered).symm
  · rw [if_pos (hback.mpr hoffered), ← and_assoc]
    simp [hoffered]

theorem ofChoice?_eq_some_iff {choice : Choice} :
    ofChoice? typed choice = some candidate ↔
      StartsWith typed choice.name ∧
        candidate = {
          name := choice.name
          description := choice.description
          kind := .argument
          priority := choice.priority.getD defaultPriority } := by
  unfold ofChoice?
  rw [Option.ite_none_right_eq_some, beginsWith_iff, Option.some_inj, eq_comm]

theorem ofCommand?_eq_some_iff :
    ofCommand? typed name = some candidate ↔
      StartsWith typed name ∧ candidate = { name := name, kind := .subcommand } := by
  unfold ofCommand?
  rw [Option.ite_none_right_eq_some, beginsWith_iff, Option.some_inj, eq_comm]

theorem ofListed?_eq_some_iff {shell : Shell} {foldersOnly isFolder : Bool} :
    ofListed? shell typed foldersOnly (name, isFolder) = some candidate ↔
      StartsWith typed name ∧ (StartsWith "." name → StartsWith "." typed) ∧
        (isFolder = true ∨ foldersOnly = false) ∧
        candidate = {
          name := if isFolder then name.push shell.preferredSeparator else name
          kind := .path } := by
  unfold ofListed?
  dsimp only
  rw [← beginsWith_iff, ← beginsWith_iff, ← beginsWith_iff]
  cases Text.beginsWith typed name <;> cases Text.beginsWith "." name <;>
    cases Text.beginsWith "." typed <;> cases isFolder <;> cases foldersOnly <;> simp [eq_comm]

/-! ## What is gathered -/

theorem mem_childrenAndOptions_iff :
    candidate ∈ childrenAndOptions context context.typed ↔ Nameable context candidate := by
  unfold childrenAndOptions
  rw [List.mem_append, List.mem_filterMap, List.mem_filterMap]
  -- Both lists are made by `filterMap`, so a candidate is traced to the child or option it is
  -- made of.
  constructor
  · rintro (⟨child, hmem, hchild⟩ | ⟨option, hmem, hoption⟩)
    · obtain ⟨hvisible, name, hname, rfl⟩ := ofChild?_eq_some_iff.mp hchild
      exact .child hmem hvisible hname
    · obtain ⟨hvisible, hagain, name, hname, rfl⟩ := ofOption?_eq_some_iff.mp hoption
      exact .option hmem hvisible hagain hname
  · intro h
    cases h with
    | child hmem hvisible hname =>
      exact .inl ⟨_, hmem, ofChild?_eq_some_iff.mpr ⟨hvisible, _, hname, rfl⟩⟩
    | option hmem hvisible hagain hname =>
      exact .inr ⟨_, hmem, ofOption?_eq_some_iff.mpr ⟨hvisible, hagain, _, hname, rfl⟩⟩

theorem mem_entryNames_iff {directory : String} {isFolder : Bool} :
    (name, isFolder) ∈ files.entryNames directory ↔
      ∃ listed entry, files.list directory = .ok listed ∧ (name, entry) ∈ listed ∧
        entry.isFolder = isFolder := by
  unfold Files.entryNames
  cases files.list directory with
  | error cause => simp
  | ok listed => simp

/-- The entries of the directory that fit a slot that takes paths. What cannot be listed is treated
as empty, so the equivalence needs no case for a failure. -/
theorem mem_paths_iff :
    (candidate ∈ if slot.templates.isEmpty then [] else
        (files.entryNames context.directory).filterMap
          (ofListed? context.shell context.typed (!slot.templates.contains .filepaths))) ↔
      ∃ listed name entry, slot.templates ≠ [] ∧ files.list context.directory = .ok listed ∧
        (name, entry) ∈ listed ∧ StartsWith context.typed name ∧
        (StartsWith "." name → StartsWith "." context.typed) ∧
        (entry.isFolder = true ∨ .filepaths ∈ slot.templates) ∧
        candidate = { name := entryName context.shell name entry, kind := .path } := by
  have hfolders : (!slot.templates.contains .filepaths) = false ↔ .filepaths ∈ slot.templates := by
    rw [Bool.not_eq_false', List.contains_iff_mem]
  by_cases htemplates : slot.templates = []
  · rw [if_pos (List.isEmpty_iff.mpr htemplates)]
    simp [htemplates]
  · rw [if_neg (mt List.isEmpty_iff.mp htemplates), List.mem_filterMap]
    constructor
    · rintro ⟨⟨name, isFolder⟩, hmem, hentry⟩
      obtain ⟨listed, entry, hlist, hlisted, rfl⟩ := mem_entryNames_iff.mp hmem
      rw [ofListed?_eq_some_iff, hfolders] at hentry
      exact ⟨listed, name, entry, htemplates, hlist, hlisted, hentry⟩
    · rintro ⟨listed, name, entry, -, hlist, hlisted, hentry⟩
      refine ⟨(name, entry.isFolder), mem_entryNames_iff.mpr ⟨_, _, hlist, hlisted, rfl⟩, ?_⟩
      rw [ofListed?_eq_some_iff, hfolders]
      exact hentry

theorem mem_slotValues_iff :
    candidate ∈ slotValues commands (files.entryNames context.directory) context context.typed
        slot ↔
      Fills commands files context slot candidate := by
  unfold slotValues
  dsimp only
  rw [List.mem_append, List.mem_append, List.mem_filterMap, mem_paths_iff]
  constructor
  · rintro ((⟨choice, hmem, hchoice⟩ | hcommand) | hpath)
    · obtain ⟨hstarts, rfl⟩ := ofChoice?_eq_some_iff.mp hchoice
      exact .choice hmem hstarts
    · by_cases hslot : slot.isCommand = true
      · rw [if_pos hslot] at hcommand
        obtain ⟨name, hmem, hname⟩ := List.mem_filterMap.mp hcommand
        obtain ⟨hstarts, rfl⟩ := ofCommand?_eq_some_iff.mp hname
        exact .command hslot hmem hstarts
      · rw [if_neg hslot] at hcommand
        cases hcommand
    · obtain ⟨listed, name, entry, htemplates, hlist, hmem, hstarts, hdot, hfolder, rfl⟩ := hpath
      exact .entry htemplates hlist hmem hstarts hdot hfolder
  · intro h
    -- The other way round, each rule names the list that its candidate is in.
    cases h with
    | choice hmem hstarts =>
      exact .inl (.inl ⟨_, hmem, ofChoice?_eq_some_iff.mpr ⟨hstarts, rfl⟩⟩)
    | command hslot hmem hstarts =>
      refine .inl (.inr ?_)
      rw [if_pos hslot, List.mem_filterMap]
      exact ⟨_, hmem, ofCommand?_eq_some_iff.mpr ⟨hstarts, rfl⟩⟩
    | entry htemplates hlist hmem hstarts hdot hfolder =>
      exact .inr ⟨_, _, _, htemplates, hlist, hmem, hstarts, hdot, hfolder, rfl⟩

/-- Nothing is gathered only where the arguments of the node are used up. -/
theorem candidates?_eq_none_iff {entries : List (String × Bool)} :
    candidates? commands context entries = none ↔ context.expected = .anything true true := by
  unfold candidates?
  dsimp only
  cases context.expected with
  | anything argsExhausted argsUsed => cases argsExhausted <;> cases argsUsed <;> simp
  | value slot remainingOptional => simp

theorem eligible_iff :
    Eligible commands files context candidate ↔
      (offersNamed context.expected = true ∧ Nameable context candidate) ∨
        ∃ slot, context.currentSlot? = some slot ∧ Fills commands files context slot candidate := by
  constructor
  · intro h
    cases h with
    | named hoffers hnamed => exact .inl ⟨hoffers, hnamed⟩
    | value hslot hfills => exact .inr ⟨_, hslot, hfills⟩
  · rintro (⟨hoffers, hnamed⟩ | ⟨slot, hslot, hfills⟩)
    · exact .named hoffers hnamed
    · exact .value hslot hfills

/-- Exactly the eligible candidates are gathered. By the two kinds of places: each is a list of
names, under the condition that names are offered, beside the values of one slot, if there is one.
-/
theorem mem_candidates_iff
    (hall : candidates? commands context (files.entryNames context.directory) = some all) :
    candidate ∈ all ↔ Eligible commands files context candidate := by
  rw [eligible_iff]
  unfold candidates? at hall
  dsimp only at hall
  unfold Context.currentSlot?
  cases hexpected : context.expected with
  | anything argsExhausted argsUsed =>
    rw [hexpected] at hall
    dsimp only at hall
    split at hall
    · cases hall
    · cases hall
      have hnamed : candidate ∈ (if argsUsed = true then []
            else childrenAndOptions context context.typed) ↔
          (!argsUsed) = true ∧ Nameable context candidate := by
        rw [← mem_childrenAndOptions_iff]
        cases argsUsed <;> simp
      rw [List.mem_append, hnamed]
      -- The values: of the first slot of the node, unless its slots are filled or there is none.
      apply or_congr_right
      cases argsExhausted with
      | true => simp
      | false =>
        cases context.node.args with
        | nil => simp
        | cons slot later => simp [mem_slotValues_iff]
  | value slot remainingOptional =>
    rw [hexpected] at hall
    cases hall
    have hnamed : candidate ∈ (if remainingOptional = true
          then childrenAndOptions context context.typed else []) ↔
        remainingOptional = true ∧ Nameable context candidate := by
      rw [← mem_childrenAndOptions_iff]
      cases remainingOptional <;> simp
    rw [List.mem_append, hnamed, mem_slotValues_iff, or_comm]
    simp [offersNamed]

/-! ## What is offered -/

/-- `offered` are the eligible candidates, gathered in `all`: their insert values,
each once, in strict rank order. -/
structure OffersEligible (commands : List String) (files : Files) (context : Context ι)
    (all offered : List Suggestion) : Prop where
  gathered : ∀ candidate, candidate ∈ all ↔ Eligible commands files context candidate
  values : ∀ value, value ∈ offered.map Suggestion.insertValue ↔
    ∃ candidate, Eligible commands files context candidate ∧ candidate.insertValue = value
  ordered : offered.Pairwise (Suggestion.Precedes context.typed)
  ranked : Suggestion.IsRanked context.typed all offered

theorem offersEligible_rank
    (hall : candidates? commands context (files.entryNames context.directory) = some all) :
    OffersEligible commands files context all (Suggestion.rank context.typed all) := by
  have hgathered : ∀ candidate, candidate ∈ all ↔ Eligible commands files context candidate :=
    fun _ => mem_candidates_iff hall
  have hranked := @Suggestion.isRanked_rank context.typed all
  refine ⟨hgathered, ?_, ?_, hranked⟩
  · intro value
    rw [List.mem_map]
    constructor
    · rintro ⟨kept, hkept, hvalue⟩
      exact ⟨kept, (hgathered kept).mp (Suggestion.mem_of_mem_rank hkept), hvalue⟩
    · rintro ⟨candidate, heligible, rfl⟩
      exact hranked.exists_kept candidate ((hgathered candidate).mpr heligible)
  · apply hranked.pairwise_precedes
    intro candidate hmem
    have heligible := (hgathered candidate).mp (Suggestion.mem_of_mem_rank hmem)
    exact heligible.insertValue_eq

/-- **The eligible candidates are offered, once each and in rank order.** Nothing is offered exactly
where the arguments of the node are exhausted and used (specification, § E2.5). What is gathered is
what is eligible, and ranking it (`isRanked_rank`) loses no value and makes none up; the order is
strict because every eligible candidate is inserted as it is shown. -/
theorem byGrammar_offers_eligible (commands : List String) (files : Files) (context : Context ι) :
    (byGrammar commands context (files.entryNames context.directory) = none ↔
      context.expected = .anything true true) ∧
    (context.expected = .anything true true ∨ ∃ all offered,
      candidates? commands context (files.entryNames context.directory) = some all ∧
      byGrammar commands context (files.entryNames context.directory) = some offered ∧
      OffersEligible commands files context all offered) := by
  constructor
  · rw [byGrammar, Option.map_eq_none_iff, candidates?_eq_none_iff]
  · cases hall : candidates? commands context (files.entryNames context.directory) with
    | none => exact .inl (candidates?_eq_none_iff.mp hall)
    | some all =>
      have hoffered : byGrammar commands context (files.entryNames context.directory) =
          some (Suggestion.rank context.typed all) := by
        rw [byGrammar, hall, Option.map_some]
      exact .inr ⟨all, _, rfl, hoffered, offersEligible_rank hall⟩

end Recommendation

end CommandCompletion
