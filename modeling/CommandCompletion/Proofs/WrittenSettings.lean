/-
Settings that were written are read back as the same settings.

The document states each section with all that the section has, so nothing is left to the
defaults: `Settings.members` is the table it defines (`ofStatements?_statements`), and
each decoder gets its section back from it.

Numbers must fit a machine word, as they do in settings; a document may state larger ones,
which no setting accepts.
-/
import CommandCompletion.Proofs.StatedTables
import CommandCompletion.Proofs.WrittenToml
import CommandCompletion.Settings.Document

set_option autoImplicit false

namespace CommandCompletion

open Toml (Value Members Statement fields? sectionOf)
open Named (defaulting)

/-! ## Maps -/

namespace NameMap

variable {α : Type}

/-- What comes after all names of a map is put at its end. -/
theorem insertEntry_last {name : String} {value : α} {entries : List (String × α)}
    (h : ∀ entry ∈ entries, entry.1 < name) :
    insertEntry name value entries = entries ++ [(name, value)] := by
  induction entries with
  | nil => rfl
  | cons entry entries ih =>
    obtain ⟨other, old⟩ := entry
    obtain ⟨hother, hrest⟩ := List.forall_mem_cons.mp h
    have hne : name ≠ other := fun heq => String.lt_irrefl other (heq ▸ hother)
    rw [insertEntry, if_neg (String.lt_asymm hother), if_neg hne, ih hrest, List.cons_append]

/-- The entries of a map make the map, since they are in the order of their names and no name
repeats. -/
theorem ofList_entries (map : NameMap α) : ofList map.entries = map := by
  have hfold : ∀ (rest : List (String × α)) (done : NameMap α),
      (done.entries ++ rest).Pairwise (fun a b => a.1 < b.1) →
      (rest.foldl (fun map entry => map.insert entry.1 entry.2) done).entries =
        done.entries ++ rest := by
    -- What has been inserted is in front of all that is left, so the rest goes to the end.
    intro rest
    induction rest with
    | nil => exact fun done _ => (List.append_nil _).symm
    | cons entry rest ih =>
      intro done hordered
      have hlast : (done.insert entry.1 entry.2).entries = done.entries ++ [entry] :=
        insertEntry_last fun other hother =>
          (List.pairwise_append.mp hordered).2.2 other hother entry List.mem_cons_self
      have hmore := ih (done.insert entry.1 entry.2) (by
        rw [hlast, List.append_assoc]
        exact hordered)
      rw [hlast, List.append_assoc] at hmore
      exact hmore
  exact NameMap.ext (hfold map.entries ∅ map.ordered)

end NameMap

/-! ## Sections -/

/-- What the engine's section states: the time a probe may take, and the shell. -/
def EngineSettings.entries (engine : EngineSettings) : Members :=
  [("probe_timeout_ms", .integer engine.probeMillis),
    ("default_shell", .text engine.defaultShell.name)]

/-- What the catalog's section states. The directory for locations is left out if there is none. -/
def CatalogSettings.entries (catalog : CatalogSettings) : Members :=
  ("spec_dir", .text catalog.grammarDirectory) ::
    catalog.locationDirectory.toList.map fun text => ("location_dir", .text text)

/-- What the display's section states: the format, the colours and the limit. -/
def DisplaySettings.entries (display : DisplaySettings) : Members :=
  [("format", .text display.format.name), ("color_output", .bool display.colors),
    ("max_suggestions", .integer display.maxSuggestions)]

/-- What the log's section states. -/
def LogSettings.entries (log : LogSettings) : Members :=
  [("level", .text log.level.name), ("timestamps", .bool log.timestamps)]

/-- What a generator's section states: the command and its arguments. -/
def CommandSettings.entries (generator : CommandSettings) : Members :=
  [("command", .text generator.command),
    ("args", .array .closed (generator.args.map .text))]

/-- A shell is found by its name. -/
theorem Shell.ofExactName?_name (shell : Shell) : ofExactName? shell.name = some shell := by
  cases shell <;> decide

/-- So is a format of the output. -/
theorem OutputFormat.ofExactName?_name (format : OutputFormat) :
    ofExactName? format.name = some format := by
  cases format <;> decide

/-- And a level of the log. -/
theorem LogLevel.ofExactName?_name (level : LogLevel) : ofExactName? level.name = some level := by
  cases level <;> decide

/-- A number is accepted if it fits a machine word. -/
theorem Toml.Value.nat?_integer {n : Nat} (h : n < UInt64.size) :
    (Value.integer n).nat? = some n := by
  have hlimit : Int.pow 2 64 = UInt64.size := rfl
  have hrange : (decide (0 ≤ (n : Int)) && decide ((n : Int) < Int.pow 2 64)) = true := by
    rw [hlimit, Bool.and_eq_true_iff, decide_eq_true_iff, decide_eq_true_iff]
    omega
  unfold nat?
  dsimp only
  rw [hrange, if_pos rfl, Int.toNat_natCast]

/-- A list of texts is read as the texts, each of its items being one. -/
theorem Toml.Value.texts?_text (origin : Toml.Origin) (texts : List String) :
    (Value.array origin (texts.map .text)).texts? = some texts := by
  show (texts.map Value.text).mapM text? = some texts
  induction texts with
  | nil => rfl
  | cons text texts ih =>
    rw [List.map_cons, List.mapM_cons, ih]
    rfl

/-- A record with no members but its own has the fields that its members are. -/
theorem Toml.fields?_table {names : List String} {members : Members} (origin : Toml.Origin)
    (h : ∀ member ∈ members, member.1 ∈ names) :
    fields? names (.table origin members) = some fun name => members.lookup name := by
  refine if_pos (List.all_eq_true.mpr fun member hmember => ?_)
  exact Bool.or_eq_true_iff.mpr (.inl (List.contains_iff_mem.mpr (h member hmember)))

/-- A member that is stated is decoded, whatever the default is. -/
theorem Named.defaulting_some {α β : Type} (default : β) (decode : α → Option β) (value : α) :
    defaulting default decode (some value) = decode value := rfl

/-- The engine's settings are got back from what their section states. -/
theorem EngineSettings.ofValue?_entries {engine : EngineSettings}
    (h : engine.probeMillis < UInt64.size) :
    ofValue? (.table .stated engine.entries) = some engine := by
  have hfields : fields? ["probe_timeout_ms", "default_shell"] (.table .stated engine.entries) =
      some fun name => engine.entries.lookup name := Toml.fields?_table _ (by simp [entries])
  have hmillis : engine.entries.lookup "probe_timeout_ms" =
    some (.integer engine.probeMillis) := rfl
  have hshell : engine.entries.lookup "default_shell" =
    some (.text engine.defaultShell.name) := rfl
  unfold ofValue?
  rw [hfields, Option.bind_eq_bind, Option.bind_some]
  dsimp only
  rw [hmillis, hshell, Named.defaulting_some, Named.defaulting_some, Toml.Value.nat?_integer h,
    Value.choice?, Shell.ofExactName?_name]
  rfl

/-- So are the catalog's, wherever the home directory is: no default is asked for, and a directory
that is left out is none. -/
theorem CatalogSettings.ofValue?_entries (home : Option String) (catalog : CatalogSettings) :
    ofValue? home (.table .stated catalog.entries) = some catalog := by
  have hfields : fields? ["spec_dir", "location_dir"] (.table .stated catalog.entries) =
      some fun name => catalog.entries.lookup name := by
    refine Toml.fields?_table _ ?_
    unfold entries
    cases catalog.locationDirectory with
    | none => simp
    | some text => simp
  obtain ⟨grammars, locations⟩ := catalog
  unfold ofValue?
  rw [hfields]
  cases locations with
  | none => rfl
  | some text => rfl

/-- So are the display's, if the limit fits a machine word. -/
theorem DisplaySettings.ofValue?_entries {display : DisplaySettings}
    (h : display.maxSuggestions < UInt64.size) :
    ofValue? (.table .stated display.entries) = some display := by
  have hfields : fields? ["format", "color_output", "max_suggestions"]
      (.table .stated display.entries) = some fun name => display.entries.lookup name :=
    Toml.fields?_table _ (by simp [entries])
  have hformat : display.entries.lookup "format" = some (.text display.format.name) := rfl
  have hcolors : display.entries.lookup "color_output" = some (.bool display.colors) := rfl
  have hmost : display.entries.lookup "max_suggestions" =
    some (.integer display.maxSuggestions) := rfl
  unfold ofValue?
  rw [hfields, Option.bind_eq_bind, Option.bind_some]
  dsimp only
  rw [hformat, hcolors, hmost, Named.defaulting_some, Named.defaulting_some,
    Named.defaulting_some, Toml.Value.nat?_integer h, Value.choice?,
    OutputFormat.ofExactName?_name]
  rfl

/-- So are the log's. -/
theorem LogSettings.ofValue?_entries (log : LogSettings) :
    ofValue? (.table .stated log.entries) = some log := by
  have hfields : fields? ["level", "timestamps"] (.table .stated log.entries) =
      some fun name => log.entries.lookup name := Toml.fields?_table _ (by simp [entries])
  have hlevel : log.entries.lookup "level" = some (.text log.level.name) := rfl
  unfold ofValue?
  rw [hfields, Option.bind_eq_bind, Option.bind_some]
  dsimp only
  rw [hlevel, Named.defaulting_some, Value.choice?, LogLevel.ofExactName?_name]
  rfl

/-- And so is a generator, with all of its arguments. -/
theorem CommandSettings.ofValue?_entries (generator : CommandSettings) :
    ofValue? (.table .stated generator.entries) = some generator := by
  have hfields : fields? ["command", "args"] (.table .stated generator.entries) =
      some fun name => generator.entries.lookup name := Toml.fields?_table _ (by simp [entries])
  have hargs : generator.entries.lookup "args" =
    some (.array .closed (generator.args.map .text)) := rfl
  unfold ofValue?
  rw [hfields, Option.bind_eq_bind, Option.bind_some]
  dsimp only
  rw [hargs, Named.defaulting_some, Toml.Value.texts?_text]
  rfl

/-! ## The whole table -/

namespace Settings

/-- The name of a generator with what its section states. -/
def generatorEntries : String × CommandSettings → String × Members
  | (name, generator) => (name, generator.entries)

/-- A table under its name, as its header states it. -/
def statedTable : String × Members → String × Value
  | (key, entries) => (key, .table .stated entries)

/-- The sections that every document has. -/
def sections (settings : Settings) : List (String × Members) :=
  [("engine", settings.engine.entries), ("catalog", settings.catalog.entries),
    ("display", settings.display.entries), ("logging", settings.log.entries)]

/-- The tables of the generators, implied by their headers; none if there are none, since then no
header mentions them. -/
def generatorTables (generators : List (String × CommandSettings)) : Members :=
  if generators.isEmpty then []
  else
    [("generators", .table .implied ((generators.map generatorEntries).map statedTable))]

/-- The table that the document of the settings defines: the four sections, and the generators
behind them. -/
def members (settings : Settings) : Members :=
  settings.sections.map statedTable ++ generatorTables settings.generators.entries

variable {settings : Settings}

/-- The document is made of sections: the four at the top, and one below `generators` for each
generator. -/
theorem statements_eq (settings : Settings) : settings.statements =
    (settings.sections.flatMap fun (key, entries) => sectionOf [] key entries) ++
      ((settings.generators.entries.map generatorEntries).flatMap fun (key, entries) =>
        sectionOf ["generators"] key entries) := by
  have hgenerators : generatorStatements = fun entry =>
      sectionOf ["generators"] (generatorEntries entry).1 (generatorEntries entry).2 := by
    funext ⟨name, generator⟩
    rfl
  obtain ⟨engine, ⟨grammars, locations⟩, display, log, generators⟩ := settings
  rw [List.flatMap_map, statements, hgenerators]
  cases locations with
  | none => rfl
  | some text => rfl

/-- No name repeats in a map, as its entries are in order. -/
theorem nodup_of_ordered {α : Type} (map : NameMap α) : (map.entries.map (·.1)).Nodup := by
  refine List.pairwise_map.mpr (map.ordered.imp fun {a b} hless heq => ?_)
  exact String.lt_irrefl b.1 (heq ▸ hless)

/-- No name repeats in a section, and no section does. -/
theorem nodup_sections (settings : Settings) :
    (∀ entry ∈ settings.sections, (entry.2.map (·.1)).Nodup) ∧
      (settings.sections.map (·.1)).Nodup := by
  have hcatalog : (settings.catalog.entries.map (·.1)).Nodup := by
    unfold CatalogSettings.entries
    cases settings.catalog.locationDirectory with
    | none => exact (by decide : ["spec_dir"].Nodup)
    | some text => exact (by decide : ["spec_dir", "location_dir"].Nodup)
  constructor
  · intro entry hentry
    simp only [sections, List.mem_cons, List.not_mem_nil, or_false] at hentry
    rcases hentry with rfl | rfl | rfl | rfl
    · exact (by decide : ["probe_timeout_ms", "default_shell"].Nodup)
    · exact hcatalog
    · exact (by decide : ["format", "color_output", "max_suggestions"].Nodup)
    · exact (by decide : ["level", "timestamps"].Nodup)
  · exact (by decide : ["engine", "catalog", "display", "logging"].Nodup)

/-- The sections of the generators add one table to those that stand before them, which holds a
table for each generator in the order of their names. -/
theorem perform_generators {top : Members} (htop : top.lookup "generators" = none)
    {generators : List (String × CommandSettings)} (hnames : (generators.map (·.1)).Nodup)
    (here : List String) :
    ∃ here', ((generators.map generatorEntries).flatMap fun (key, entries) =>
        sectionOf ["generators"] key entries).foldlM Toml.Draft.perform? ⟨top, here⟩ =
      some ⟨top ++ generatorTables generators, here'⟩ := by
  have hentries : ∀ generator : CommandSettings, (generator.entries.map (·.1)).Nodup :=
    fun _ => (by decide : ["command", "args"].Nodup)
  have hlast := fun inner => Toml.leadsTo_last htop inner
  cases generators with
  | nil =>
    refine ⟨here, ?_⟩
    have hnone : top ++ generatorTables [] = top := List.append_nil top
    rw [hnone]
    rfl
  | cons first generators =>
    obtain ⟨name, generator⟩ := first
    -- The first header makes the table that the other sections find.
    have hfirst := Toml.perform_section (Toml.leadsTo_missing htop) hlast
      (List.lookup_nil (a := name)) (hentries generator) here
    have hrest : (([(name, Value.table .stated generator.entries)] : Members).map (·.1) ++
        (generators.map generatorEntries).map (·.1)).Nodup := by
      rw [List.map_map]
      exact hnames
    obtain ⟨here', hrest⟩ := Toml.perform_sections hlast (generators.map generatorEntries)
      (List.forall_mem_map.mpr fun entry _ => hentries entry.2) hrest (["generators"] ++ [name])
    refine ⟨here', ?_⟩
    rw [List.map_cons, List.flatMap_cons, List.foldlM_append]
    show (Option.bind (List.foldlM _ _ (sectionOf _ name generator.entries)) _) = _
    rw [hfirst]
    exact hrest

/-- **The document of settings defines their table.** The sections at the top are carried out first,
and those of the generators go below a table that none of them has made. -/
theorem ofStatements?_statements (settings : Settings) :
    Members.ofStatements? settings.statements = some settings.members := by
  obtain ⟨hentries, hnames⟩ := settings.nodup_sections
  obtain ⟨here, htop⟩ := Toml.perform_sections (fun inner => Toml.leadsTo_top inner)
    settings.sections hentries
    (show (([] : Members).map (·.1) ++ settings.sections.map (·.1)).Nodup from hnames) []
  -- None of the sections before has made the table that holds the generators.
  have hmissing : (settings.sections.map statedTable).lookup "generators" = none := rfl
  obtain ⟨here', hgenerators⟩ := perform_generators hmissing
    (nodup_of_ordered settings.generators) here
  rw [Members.ofStatements?, statements_eq, List.foldlM_append]
  show Option.map _ (Option.bind _ _) = _
  have htop' : (settings.sections.flatMap fun (key, entries) => sectionOf [] key entries).foldlM
    Toml.Draft.perform? {} = some ⟨settings.sections.map statedTable, here⟩ := htop
  rw [htop']
  show Option.map _ (List.foldlM _ _ _) = _
  rw [hgenerators]
  rfl

/-- The generators are got back from their tables, one by one. -/
theorem generatorsOf?_tables (map : NameMap CommandSettings) (origin : Toml.Origin) :
    generatorsOf? (.table origin ((map.entries.map generatorEntries).map statedTable)) =
      some map := by
  have hentries : ((map.entries.map generatorEntries).map statedTable).mapM
      (fun entry => do return (entry.1, ← CommandSettings.ofValue? entry.2)) =
      some map.entries := by
    generalize map.entries = entries
    induction entries with
    | nil => rfl
    | cons entry entries ih =>
      rw [List.map_cons, List.map_cons, List.mapM_cons, ih, statedTable, generatorEntries]
      dsimp only
      rw [CommandSettings.ofValue?_entries]
      rfl
  exact (congrArg (·.bind fun entries => some (NameMap.ofList entries)) hentries).trans
    (congrArg some map.ofList_entries)

/-- Generators that have no sections are the default. -/
theorem generators_members (settings : Settings) :
    defaulting ∅ generatorsOf? (settings.members.lookup "generators") =
      some settings.generators := by
  have htables := generatorsOf?_tables settings.generators .implied
  have hlookup : settings.members.lookup "generators" =
    (generatorTables settings.generators.entries).lookup "generators" := rfl
  rw [hlookup, generatorTables]
  split
  · rename_i hempty
    have hnone : (∅ : NameMap CommandSettings) = settings.generators :=
      NameMap.ext (List.isEmpty_iff.mp hempty).symm
    exact congrArg some hnone
  · exact htables

/-- Numbers fit a machine word, as they do in settings that are in force. -/
structure WordSized (settings : Settings) : Prop where
  probeMillis : settings.engine.probeMillis < UInt64.size
  maxSuggestions : settings.display.maxSuggestions < UInt64.size

/-- **The settings are got back from their table**, wherever the home directory is: every section is
stated, so no default is asked for. -/
theorem ofMembers?_members (home : Option String) (h : settings.WordSized) :
    ofMembers? home settings.members = some settings := by
  have hfields : fields? ["engine", "catalog", "display", "logging", "generators"]
      (.table .stated settings.members) = some fun name => settings.members.lookup name := by
    refine Toml.fields?_table _ (List.forall_mem_append.mpr ⟨?_, ?_⟩)
    · simp [sections, statedTable]
    · unfold generatorTables
      split
      · simp
      · simp
  have hengine : settings.members.lookup "engine" =
    some (.table .stated settings.engine.entries) := rfl
  have hcatalog : settings.members.lookup "catalog" =
    some (.table .stated settings.catalog.entries) := rfl
  have hdisplay : settings.members.lookup "display" =
    some (.table .stated settings.display.entries) := rfl
  have hlog : settings.members.lookup "logging" =
    some (.table .stated settings.log.entries) := rfl
  unfold ofMembers?
  rw [hfields, Option.bind_eq_bind, Option.bind_some]
  dsimp only
  rw [hengine, hcatalog, hdisplay, hlog, generators_members]
  rw [Named.defaulting_some, Named.defaulting_some, Named.defaulting_some, Named.defaulting_some,
    EngineSettings.ofValue?_entries h.probeMillis, CatalogSettings.ofValue?_entries,
    DisplaySettings.ofValue?_entries h.maxSuggestions, LogSettings.ofValue?_entries]
  rfl

/-- Every statement of the document is of a kind that is read back. Each section is a header with
values that are flat or lists of texts. -/
theorem writable_statements (settings : Settings) :
    ∀ statement ∈ settings.statements, statement.Writable := by
  have hsection : ∀ (path : List String) (key : String) (entries : Members),
      path.length < Toml.maxLevels → (∀ entry ∈ entries, entry.2.Writable) →
        ∀ statement ∈ sectionOf path key entries, statement.Writable := by
    intro path key entries hpath hentries
    refine List.forall_mem_cons.mpr ⟨.header hpath key, List.forall_mem_map.mpr ?_⟩
    exact fun entry hentry => .assignment (by decide) entry.1 (hentries entry hentry)
  rw [statements_eq]
  refine List.forall_mem_append.mpr ⟨List.forall_mem_flatMap.mpr ?_, List.forall_mem_flatMap.mpr ?_⟩
  · intro entry hentry
    simp only [sections, List.mem_cons, List.not_mem_nil, or_false] at hentry
    rcases hentry with rfl | rfl | rfl | rfl
    · refine hsection [] _ _ (by decide) (List.forall_mem_cons.mpr ⟨.flat (.integer _), ?_⟩)
      exact List.forall_mem_singleton.mpr (.flat (.text _))
    · refine hsection [] _ _ (by decide) (List.forall_mem_cons.mpr ⟨.flat (.text _), ?_⟩)
      exact List.forall_mem_map.mpr fun text _ => .flat (.text text)
    · refine hsection [] _ _ (by decide) (List.forall_mem_cons.mpr ⟨.flat (.text _), ?_⟩)
      refine List.forall_mem_cons.mpr ⟨.flat (.bool _), ?_⟩
      exact List.forall_mem_singleton.mpr (.flat (.integer _))
    · refine hsection [] _ _ (by decide) (List.forall_mem_cons.mpr ⟨.flat (.text _), ?_⟩)
      exact List.forall_mem_singleton.mpr (.flat (.bool _))
  · refine List.forall_mem_map.mpr fun entry _ => ?_
    refine hsection ["generators"] _ _ (by decide) (List.forall_mem_cons.mpr ⟨.flat (.text _), ?_⟩)
    refine List.forall_mem_singleton.mpr (.array (List.forall_mem_map.mpr fun text _ => ?_))
    exact .text text

/-- **Settings that were written are read back** (specification, § E1.3), wherever the home
directory is: the text as its statements, these as the table, and the table as the settings. -/
theorem ofText_toText (home : Option String) (h : settings.WordSized) :
    ofText home settings.toText = .ok settings := by
  unfold ofText toText
  rw [Toml.parse?_write settings.writable_statements, ofStatements?_statements, Option.bind_some,
    ofMembers?_members home h]

end Settings

end CommandCompletion
