/-
The keys of a directory, and the files they are read from.

A document is listed under a key that is made from its path, and read from a
path that is made from the key. The two undo each other up to the last name:
the way down is kept, and `.json` is taken off and put on again
(`pathOf_keyOf`). So a document is read from its own file exactly if its stem is
plain. The stem `python3.11` is not: its own extension is replaced, and what is
read is `python3.json`.

`openDirectory_index` puts together what holds of every directory.
-/
import CommandCompletion.Proofs.FileNames
import CommandCompletion.Proofs.FileTrees
import Mathlib.Data.List.Nodup

set_option autoImplicit false

namespace CommandCompletion

open CommandCompletion.Path (IsName IsPlainStem joinAll)

namespace Source

variable {directory name stem : String} {above parts : List String}

/-! ## Keys and paths -/

/-- The name of the file that is read for a document of this name: its extension is taken off for
the key, and `.json` is put on for the path. -/
def readAs (name : String) : String := Path.withExtension (Path.withoutExtension name) "json"

/-- A key is the way down and what is left of the last name, with slashes between. -/
theorem keyOf_concat (above : List String) (name : String) :
    keyOf (above ++ [name]) = String.intercalate "/" (above ++ [Path.withoutExtension name]) := by
  unfold keyOf
  simp

/-- What is left of a document's name has no slash in it, so the key can be taken apart again. -/
theorem noSlash_withoutExtension (hstem : stem ≠ "") (hname : IsName (stem ++ ".json")) :
    '/' ∉ (Path.withoutExtension (stem ++ ".json")).toList := by
  rw [Path.withoutExtension_json hstem]
  by_cases hdot : stem = "."
  · rw [if_pos hdot]
    decide
  · rw [if_neg hdot]
    intro h
    exact hname.noSlash (by rw [String.toList_append]; exact List.mem_append_left _ h)

/-- The parts of a key are those of the document's path, the extension taken off the last one. -/
theorem parts_keyOf (habove : ∀ name ∈ above, IsName name) (hstem : stem ≠ "")
    (hname : IsName (stem ++ ".json")) : Path.parts (keyOf (above ++ [stem ++ ".json"])) =
      above ++ [Path.withoutExtension (stem ++ ".json")] := by
  rw [keyOf_concat]
  refine Path.parts_intercalate (List.append_ne_nil_of_right_ne_nil _ (List.cons_ne_nil _ _)) ?_
  intro name hmem
  rcases List.mem_append.mp hmem with hmem | hmem
  · exact (habove name hmem).noSlash
  · rw [List.mem_singleton.mp hmem]
    exact noSlash_withoutExtension hstem hname

/-- **A document is looked for in its own directory**, under the name that the key leaves of it.
Only the last part of the key is changed on the way back. -/
theorem pathOf_keyOf (habove : ∀ name ∈ above, IsName name) (hstem : stem ≠ "")
    (hname : IsName (stem ++ ".json")) : pathOf directory (keyOf (above ++ [stem ++ ".json"])) =
      joinAll directory (above ++ [readAs (stem ++ ".json")]) := by
  unfold pathOf readAs
  dsimp only
  rw [parts_keyOf habove hstem hname, List.dropLast_concat, List.getLastD_concat]

/-- A document is read from its own file exactly if its stem is plain: paths in one directory are
the same only if the last names are. -/
theorem pathOf_keyOf_eq_iff (hdirectory : directory ≠ "") (habove : ∀ name ∈ above, IsName name)
    (hstem : stem ≠ "") (hname : IsName (stem ++ ".json")) :
    pathOf directory (keyOf (above ++ [stem ++ ".json"])) =
        joinAll directory (above ++ [stem ++ ".json"]) ↔ IsPlainStem stem := by
  rw [pathOf_keyOf habove hstem hname, ← Path.withExtension_withoutExtension_iff hstem]
  have hread : '/' ∉ (readAs (stem ++ ".json")).toList := by
    intro h
    rcases Path.mem_withExtension h with h | h | h
    · exact noSlash_withoutExtension hstem hname h
    · cases h
    · exact absurd h (by decide)
  constructor
  · intro h
    exact Path.joinAll_concat_inj hdirectory habove hread hname.noSlash h
  · intro h
    rw [readAs, h]

/-- Two documents with one key stand in the same directory, and their stems are the same or both
dots. The parts of the key give the way down and what is left of each name. -/
theorem keyOf_inj {above' : List String} {stem' : String} (habove : ∀ name ∈ above, IsName name)
    (habove' : ∀ name ∈ above', IsName name) (hstem : stem ≠ "") (hstem' : stem' ≠ "")
    (hname : IsName (stem ++ ".json")) (hname' : IsName (stem' ++ ".json"))
    (h : keyOf (above ++ [stem ++ ".json"]) = keyOf (above' ++ [stem' ++ ".json"])) :
    above = above' ∧ (stem = stem' ∨ stem = "." ∧ stem' = ".." ∨ stem = ".." ∧ stem' = ".") := by
  have hparts := congrArg Path.parts h
  rw [parts_keyOf habove hstem hname, parts_keyOf habove' hstem' hname'] at hparts
  -- One name stands behind the way down on either side.
  obtain ⟨hsame, hlast⟩ := List.append_inj' hparts rfl
  refine ⟨hsame, Path.withoutExtension_json_inj hstem hstem' ?_⟩
  simpa using hlast

/-! ## What is indexed -/

/-- The names lead from a directory to a document, so the source can be asked for it (specification,
§ E2.2). -/
def HasDocument (files : Files) (directory : String) (parts : List String) : Prop :=
  ∃ entries, files.find directory = .ok (.folder entries) ∧
    LeadsToDocument (.folder entries) "" parts

/-- A document as its bytes say: its text, if it is one, read as a grammar. -/
def decoded (key : String) (bytes : ByteArray) : Except Failure (Option Supply) :=
  match String.fromUTF8? bytes with
  | some text => (Document.ofText key text).map fun grammar => some (.grammar grammar)
  | none => .error (.file .notText)

/-- The document's own name is read for its key, since its stem is plain. -/
def IsPlainlyNamed (parts : List String) : Prop :=
  ∃ above stem, parts = above ++ [stem ++ ".json"] ∧ IsPlainStem stem

/-- What is said of a source that was opened for a directory: `documents` are
the documents below it, each as the names that lead there. -/
structure IndexOf (directory : String) (files : Files) (source : Source World)
    (documents : List (List String)) : Prop where
  complete : ∀ parts, parts ∈ documents ↔ HasDocument files directory parts
  once : documents.Nodup
  sorted : source.keys.Pairwise (· ≤ ·)
  /-- One key for each document. -/
  keyed : source.keys.Perm (documents.map keyOf)
  /-- Two documents get the same key only if their stems are dots. -/
  distinct : source.keys.Nodup ↔
    ¬ ∃ above, above ++ ["..json"] ∈ documents ∧ above ++ ["...json"] ∈ documents
  ownFile : ∀ parts ∈ documents,
    pathOf directory (keyOf parts) = joinAll directory parts ↔ IsPlainlyNamed parts
  /-- A document with a plain stem is loaded as its bytes say, unless the path to
  it is too long to be followed. -/
  loaded : ∀ parts ∈ documents, IsPlainlyNamed parts →
    Text.byteLength (joinAll directory parts).toList ≤ Files.maxPathBytes →
    ∃ entry bytes, files.find directory = .ok entry ∧ entry.at? parts = some (.file bytes) ∧
      ∀ world : World, world.files = files →
        (source.load (keyOf parts)).run world = (decoded (keyOf parts) bytes, world)

/-- The names of a document are names, and the last one ends in `.json`. So every document has a way
down and a stem. -/
theorem HasDocument.names {files : Files} (hfiles : files.root.WellFormed)
    (h : HasDocument files directory parts) : ∃ above stem, parts = above ++ [stem ++ ".json"] ∧
      stem ≠ "" ∧ (∀ name ∈ above, IsName name) ∧ IsName (stem ++ ".json") := by
  obtain ⟨entries, hfind, ⟨bytes, hat⟩, hextension⟩ := h
  have hnames := (Files.wellFormed_of_find hfiles hfind).isName_of_at? hat
  -- Without names one stays at the directory, which is no document.
  rcases List.eq_nil_or_concat parts with rfl | ⟨above, last, rfl⟩
  · cases hat
  · rw [List.concat_eq_append] at hat hextension hnames ⊢
    rw [List.getLastD_concat] at hextension
    obtain ⟨stem, hstem, rfl⟩ := Path.extension?_eq_json_iff.mp hextension
    refine ⟨above, stem, rfl, hstem, ?_, ?_⟩
    · exact fun name hmem => hnames name (List.mem_append_left _ hmem)
    · exact hnames _ (List.mem_append_right _ (List.mem_singleton_self _))

/-- The way down and the stem of a document are fixed by its names. -/
theorem concat_json_inj {above' : List String} {stem' : String}
    (h : above ++ [stem ++ ".json"] = above' ++ [stem' ++ ".json"]) :
    above = above' ∧ stem = stem' := by
  obtain ⟨hsame, hlast⟩ := List.append_inj' h rfl
  refine ⟨hsame, ?_⟩
  have hname : stem ++ ".json" = stem' ++ ".json" := by simpa using hlast
  exact (String.append_left_inj ".json").mp hname

/-- Whether it is plainly named is a matter of the stem alone. -/
theorem isPlainlyNamed_iff : IsPlainlyNamed (above ++ [stem ++ ".json"]) ↔ IsPlainStem stem := by
  constructor
  · rintro ⟨above', stem', hparts, hplain⟩
    rw [(concat_json_inj hparts).2]
    exact hplain
  · intro h
    exact ⟨above, stem, rfl, h⟩

/-- Keys are listed in their order, which sorting sees to as the order of texts is total. -/
theorem sorted_keysBelow (entries : List (String × Entry)) :
    (keysBelow entries).Pairwise (· ≤ ·) := by
  have htrans : ∀ a b c : String, decide (a ≤ b) = true → decide (b ≤ c) = true →
      decide (a ≤ c) = true := by
    intro a b c hab hbc
    rw [decide_eq_true_iff] at hab hbc ⊢
    exact String.le_trans hab hbc
  have htotal : ∀ a b : String, (decide (a ≤ b) || decide (b ≤ a)) = true := by
    intro a b
    rw [Bool.or_eq_true, decide_eq_true_iff, decide_eq_true_iff]
    exact String.le_total a b
  refine (List.pairwise_mergeSort htrans htotal _).imp ?_
  intro a b h
  exact of_decide_eq_true h

/-- **Keys collide exactly where both stems are dots.** Names and way down are given back by the key
otherwise, and two dots are what both of these stems leave. -/
theorem nodup_keys_iff {files : Files} {documents : List (List String)}
    (hfiles : files.root.WellFormed)
    (hcomplete : ∀ parts, parts ∈ documents ↔ HasDocument files directory parts)
    (honce : documents.Nodup) : (documents.map keyOf).Nodup ↔
      ¬ ∃ above, above ++ ["..json"] ∈ documents ∧ above ++ ["...json"] ∈ documents := by
  rw [List.nodup_map_iff_inj_on honce]
  constructor
  -- Both keys end in two dots, so two documents would have one key.
  · rintro hinj ⟨above, hdot, hdots⟩
    have hkeys : keyOf (above ++ ["..json"]) = keyOf (above ++ ["...json"]) := by
      have hleft : Path.withoutExtension "..json" = ".." :=
        Path.withoutExtension_json (by decide : "." ≠ "")
      have hleft' : Path.withoutExtension "...json" = ".." :=
        Path.withoutExtension_json (by decide : ".." ≠ "")
      rw [keyOf_concat, keyOf_concat, hleft, hleft']
    have hnames := hinj _ hdot _ hdots hkeys
    simp at hnames
  · intro hapart parts hparts parts' hparts' hkeys
    obtain ⟨above, stem, rfl, hstem, habove, hname⟩ := ((hcomplete parts).mp hparts).names hfiles
    obtain ⟨above', stem', rfl, hstem', habove', hname'⟩ :=
      ((hcomplete parts').mp hparts').names hfiles
    obtain ⟨rfl, hsame | ⟨rfl, rfl⟩ | ⟨rfl, rfl⟩⟩ :=
      keyOf_inj habove habove' hstem hstem' hname hname' hkeys
    · rw [hsame]
    · exact absurd ⟨above, hparts, hparts'⟩ hapart
    · exact absurd ⟨above, hparts', hparts⟩ hapart

/-! ## Opening a directory -/

/-- The source that holds these keys of a directory, and looks at the files when it is asked. -/
def opened (directory : String) (keys : List String) : Source World where
  keys := keys
  load := fun key => return loadFile directory keys key (← get).files

/-- A directory is indexed, or is not there; anything else in its place fails. -/
theorem openDirectory_cases {files : Files} {source : Source World}
    (h : openDirectory directory files = .ok source) :
    (∃ entries, files.find directory = .ok (.folder entries) ∧
      source = opened directory (keysBelow entries)) ∨
    files.find directory = .error .notFound ∧ source = opened directory [] := by
  unfold openDirectory Files.tryContains Files.list at h
  cases hfind : files.find directory with
  | ok entry =>
    rw [hfind] at h
    cases entry with
    | file => cases h
    | folder entries =>
      cases h
      exact .inl ⟨entries, rfl, rfl⟩
  | error cause =>
    rw [hfind] at h
    cases cause with
    | notFound =>
      cases h
      exact .inr ⟨rfl, rfl⟩
    | _ => cases h

/-- A key that is held is loaded from the file its path denotes, as the bytes of that file say. -/
theorem load_opened {files : Files} {keys : List String} {key : String} {bytes : ByteArray}
    (hkey : key ∈ keys) (hfind : files.find (pathOf directory key) = .ok (.file bytes))
    (world : World) (hworld : world.files = files) :
    ((opened directory keys).load key).run world = (decoded key bytes, world) := by
  have hload : loadFile directory keys key files = decoded key bytes := by
    unfold loadFile decoded Files.readText
    rw [if_pos (List.contains_iff_mem.mpr hkey), hfind]
    dsimp only [bind, Except.bind]
    cases String.fromUTF8? bytes <;> rfl
  show (loadFile directory keys key world.files, world) = _
  rw [hworld, hload]

/-- A source with one key for each document indexes them. What has to be shown of it is where the
keys lead. -/
theorem indexOf_opened {files : Files} {documents : List (List String)} {keys : List String}
    (hfiles : files.root.WellFormed)
    (hcomplete : ∀ parts, parts ∈ documents ↔ HasDocument files directory parts)
    (honce : documents.Nodup) (hsorted : keys.Pairwise (· ≤ ·))
    (hkeyed : keys.Perm (documents.map keyOf)) :
    IndexOf directory files (opened directory keys) documents := by
  have hown : ∀ parts ∈ documents,
      pathOf directory (keyOf parts) = joinAll directory parts ↔ IsPlainlyNamed parts := by
    intro parts hparts
    have hdocument := (hcomplete parts).mp hparts
    obtain ⟨above, stem, rfl, hstem, habove, hname⟩ := hdocument.names hfiles
    obtain ⟨entries, hfind, -⟩ := hdocument
    have hdirectory : directory ≠ "" :=
      (Files.refusal?_eq_none_iff.mp (Files.follow_of_find hfind).1).1
    rw [isPlainlyNamed_iff]
    exact pathOf_keyOf_eq_iff hdirectory habove hstem hname
  have hdistinct := hkeyed.nodup_iff.trans (nodup_keys_iff hfiles hcomplete honce)
  -- What is left is that plainly named documents are loaded from their own files.
  refine ⟨hcomplete, honce, hsorted, hkeyed, hdistinct, hown, ?_⟩
  intro parts hparts hplain hlength
  obtain ⟨entries, hfind, ⟨bytes, hat⟩, -⟩ := (hcomplete parts).mp hparts
  refine ⟨.folder entries, bytes, hfind, hat, ?_⟩
  have hne : parts ≠ [] := by
    rintro rfl
    cases hat
  have hread : files.find (pathOf directory (keyOf parts)) = .ok (.file bytes) := by
    rw [(hown parts hparts).mpr hplain]
    exact Files.find_joinAll hfiles hfind hat hne hlength
  have hkey : keyOf parts ∈ keys := hkeyed.mem_iff.mpr (List.mem_map_of_mem hparts)
  exact fun world hworld => load_opened hkey hread world hworld

/-- **What holds of every directory that could be opened** (specification, § E2.2), and when all of
its documents are listed once and read from their own files: if all stems are plain. The documents
are those that going down the directory lists; where it is missing, there are none. A collision of
keys takes a stem that is a dot, and that is not plain. -/
theorem openDirectory_index {files : Files} {source : Source World}
    (hfiles : files.root.WellFormed) (hopen : openDirectory directory files = .ok source) :
    ∃ documents, IndexOf directory files source documents ∧
      ((source.keys.Nodup ∧
          ∀ parts ∈ documents, pathOf directory (keyOf parts) = joinAll directory parts) ↔
        ∀ parts ∈ documents, IsPlainlyNamed parts) := by
  have hindexed : ∃ documents, IndexOf directory files source documents := by
    rcases openDirectory_cases hopen with ⟨entries, hfind, rfl⟩ | ⟨hfind, rfl⟩
    · have hwell := Files.wellFormed_of_find hfiles hfind
      have hcomplete : ∀ parts, parts ∈ documentsIn [] entries ↔
          HasDocument files directory parts := by
        intro parts
        rw [mem_documentsIn_iff hwell]
        constructor
        · exact fun h => ⟨entries, hfind, h⟩
        · rintro ⟨entries', hfind', h⟩
          rw [hfind] at hfind'
          cases hfind'
          exact h
      cases hwell with
      | folder _ _ hdistinct hbelow =>
        exact ⟨_, indexOf_opened hfiles hcomplete (nodup_documentsIn [] entries hdistinct hbelow)
          (sorted_keysBelow entries) (List.mergeSort_perm _ _)⟩
    -- What is not there has no documents, and a source without keys indexes it.
    · have hcomplete : ∀ parts, parts ∈ [] ↔ HasDocument files directory parts := by
        intro parts
        constructor
        · simp
        · rintro ⟨entries, hfind', -⟩
          rw [hfind] at hfind'
          cases hfind'
      exact ⟨[], indexOf_opened hfiles hcomplete List.nodup_nil List.Pairwise.nil (.refl _)⟩
  obtain ⟨documents, hindex⟩ := hindexed
  refine ⟨documents, hindex, ?_⟩
  constructor
  · rintro ⟨-, hown⟩ parts hparts
    exact (hindex.ownFile parts hparts).mp (hown parts hparts)
  · intro hplain
    refine ⟨hindex.distinct.mpr ?_, fun parts hparts =>
      (hindex.ownFile parts hparts).mpr (hplain parts hparts)⟩
    rintro ⟨above, hdot, -⟩
    have hstem : IsPlainStem "." := isPlainlyNamed_iff.mp (hplain _ hdot)
    exact hstem.ne_dot rfl

/-! Two documents of one directory. The extension that `python3.11` has of its own
is lost on the way back from the key. -/

/-- The text of `python3.json`. -/
def olderText : String := "\x7b\"description\": \"old\"\x7d"

/-- The text of `python3.11.json`. -/
def newerText : String := "\x7b\"description\": \"new\"\x7d"

/-- The two side by side. -/
def versionedFiles : Files where
  root := .folder [("specs", .folder [("python3.json", .file olderText.toUTF8),
    ("python3.11.json", .file newerText.toUTF8)])]

/-- They are as a file system holds them. -/
theorem wellFormed_versionedFiles : versionedFiles.root.WellFormed := by
  refine .folder (by decide) (by decide) (by decide) ?_
  intro entry hmem
  rw [List.mem_singleton.mp hmem]
  refine .folder (by decide) (by decide) (by decide) ?_
  intro entry hmem
  rcases List.mem_cons.mp hmem with rfl | hmem
  · exact .file _
  · rw [List.mem_singleton.mp hmem]
    exact .file _

/-- The directory can be opened, and its index is as for every directory. -/
theorem openDirectory_index_versioned : ∃ source documents,
    versionedFiles.root.WellFormed ∧ openDirectory "/specs" versionedFiles = .ok source ∧
    IndexOf "/specs" versionedFiles source documents := by
  obtain ⟨source, hopen⟩ : ∃ source, openDirectory "/specs" versionedFiles = .ok source := ⟨_, rfl⟩
  obtain ⟨documents, hindex, -⟩ := openDirectory_index wellFormed_versionedFiles hopen
  exact ⟨source, documents, wellFormed_versionedFiles, hopen, hindex⟩

/-- The key `python3.11` is listed for `python3.11.json`, and `python3.json` is
loaded for it. -/
theorem loads_other_document : ∃ source,
    openDirectory "/specs" versionedFiles = .ok source ∧
    HasDocument versionedFiles "/specs" ["python3.11.json"] ∧
    versionedFiles.find (joinAll "/specs" ["python3.11.json"]) = .ok (.file newerText.toUTF8) ∧
    keyOf ["python3.11.json"] ∈ source.keys ∧
    pathOf "/specs" (keyOf ["python3.11.json"]) = joinAll "/specs" ["python3.json"] ∧
    (source.load (keyOf ["python3.11.json"])).run { files := versionedFiles } =
      (decoded (keyOf ["python3.11.json"]) olderText.toUTF8, { files := versionedFiles }) ∧
    (Document.ofText "python3.11" olderText).toOption.map (·.description) ≠
      (Document.ofText "python3.11" newerText).toOption.map (·.description) := by
  -- Taking `.json` off gives the key; putting it on again takes the place of `.11`.
  have hkey : keyOf ["python3.11.json"] = "python3.11" := by decide +kernel
  have hread : versionedFiles.find (pathOf "/specs" "python3.11") =
      .ok (.file olderText.toUTF8) := by
    have hpath : pathOf "/specs" "python3.11" = "/specs/python3.json" := by decide +kernel
    rw [hpath]
    rfl
  have hlisted : "python3.11" ∈ keysBelow [("python3.json", .file olderText.toUTF8),
      ("python3.11.json", .file newerText.toUTF8)] := by
    rw [← hkey]
    exact List.mem_mergeSort.mpr (List.mem_map_of_mem (by decide +kernel))
  rw [hkey]
  refine ⟨_, rfl, ⟨_, rfl, ⟨_, rfl⟩, by decide +kernel⟩, rfl, hlisted, by decide +kernel, ?_,
    by decide +kernel⟩
  exact load_opened hlisted hread _ rfl

end Source

end CommandCompletion
