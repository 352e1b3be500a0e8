/-
Documents of the local machine, below a directory.

The path of such a document is put together from the directory, the folder that its
location names, and its name. The folder is the location's path without the slashes at
its ends, so it never leads back to the root; the name is taken as it is. Joining lets
an absolute path stand for itself, so a name that begins with a slash leads anywhere:
the directory and the folder are forgotten (`ofDirectory_opens`).
-/
import CommandCompletion.Catalog.Locator
import CommandCompletion.Proofs.Trimming

set_option autoImplicit false

namespace CommandCompletion

/-! ## Joining -/

namespace Path

variable {base path : String}

/-- What stands between a path and a relative one below it: nothing if the path is empty or ends in
a slash, and a slash otherwise. -/
def slashBelow (base : String) : String := if base = "" then "" else slashAfter base

/-- A relative path is put behind the base with as much of a slash as is needed. -/
theorem join_of_relative (h : isAbsolute path = false) :
    join base path = base ++ slashBelow base ++ path := by
  unfold join slashBelow
  -- Nothing is put between an empty base and the path.
  by_cases hbase : base = ""
  · have hempty : base.isEmpty = true := String.isEmpty_iff.mpr hbase
    rw [hempty, Bool.or_true, if_pos rfl, if_pos hbase, hbase, String.empty_append,
      String.empty_append]
  · have hnonempty : base.isEmpty = false :=
      Bool.eq_false_iff.mpr fun hempty => hbase (String.isEmpty_iff.mp hempty)
    rw [h, hnonempty, Bool.or_false, if_neg Bool.false_ne_true, if_neg hbase]
    unfold slashAfter
    split
    · rw [String.append_empty]
    · rfl

/-- An absolute path stands for itself, whatever it is joined to. -/
theorem join_of_absolute (h : isAbsolute path = true) : join base path = path := by
  unfold join
  rw [h, Bool.true_or, if_pos rfl]

/-- An extension does not make a name absolute, nor the other way round: only the first character
counts. -/
theorem isAbsolute_append_json (name : String) :
    isAbsolute (name ++ ".json") = isAbsolute name := by
  unfold isAbsolute
  rw [String.toList_append]
  cases name.toList with
  | nil => rfl
  | cons c cs => rfl

/-- After a slash, no other is needed. -/
theorem slashBelow_of_slash (front : String) : slashBelow (front ++ "/") = "" := by
  unfold slashBelow slashAfter
  rw [String.toList_append]
  simp

/-- One slash is enough: what was needed is there once it is put. -/
theorem slashBelow_slashBelow (base : String) : slashBelow (base ++ slashBelow base) = "" := by
  by_cases hbase : base = ""
  · rw [hbase]
    rfl
  · by_cases hslash : (base.toList.getLast? == some '/') = true
    · have hnone : slashAfter base = "" := if_pos hslash
      unfold slashBelow
      rw [if_neg hbase, hnone, String.append_empty, if_neg hbase, hnone]
    · have hone : slashAfter base = "/" := if_neg hslash
      have hbelow : slashBelow base = "/" := by rw [slashBelow, if_neg hbase, hone]
      rw [hbelow, slashBelow_of_slash]

/-- After a text that does not end in a slash, one is needed. -/
theorem slashBelow_of_bare {folder : String} (front : String) (hne : folder ≠ "")
    (hstop : ∀ c ∈ folder.toList.getLast?, (c == '/') = false) :
    slashBelow (front ++ folder) = "/" := by
  have hlist : folder.toList ≠ [] := fun hcontra => hne (String.toList_eq_nil_iff.mp hcontra)
  have hlast : (front ++ folder).toList.getLast? = some (folder.toList.getLast hlist) := by
    rw [String.toList_append, List.getLast?_append, List.getLast?_eq_some_getLast hlist]
    rfl
  have hplain := hstop _ (List.getLast?_eq_some_getLast hlist)
  have hwhole : front ++ folder ≠ "" := fun hcontra =>
    hne (String.append_eq_empty_iff.mp hcontra).2
  unfold slashBelow slashAfter
  rw [if_neg hwhole, hlast, if_neg]
  simpa using hplain

end Path

namespace Locator

open CommandCompletion.Path (isAbsolute slashBelow)

variable {path : Option String} {base folder name : String}

/-! ## Where a document should be -/

/-- The folder that a location names: its path without the slashes at the ends, and nothing if it
has no path. Stated by what stands around the folder, not by how it is cut out. -/
inductive IsFolder : Option String → String → Prop
  | none : IsFolder none ""
  | some {path folder : String} (bare : Text.Bare (· == '/') folder.toList)
      (around : ∃ before after, path.toList = before ++ folder.toList ++ after ∧
        (∀ c ∈ before, (c == '/') = true) ∧ ∀ c ∈ after, (c == '/') = true) :
      IsFolder (some path) folder

/-- The path `base/folder/name.json`, or `base/name.json` if there is no folder. This is where a
document should be (specification, § E2.3). -/
def documentPath (base folder name : String) : String :=
  if folder = "" then base ++ slashBelow base ++ name ++ ".json"
  else base ++ slashBelow base ++ folder ++ "/" ++ name ++ ".json"

/-- Taking the slashes off the ends gives the folder, and nothing else does. -/
theorem isFolder_some_iff {path : String} :
    IsFolder (some path) folder ↔ trimSlashes path = folder := by
  have hstrip : (trimSlashes path).toList = Text.strip (· == '/') path.toList :=
    String.toList_ofList
  constructor
  · rintro (_ | ⟨hbare, haround⟩)
    apply String.toList_injective
    rw [hstrip]
    exact Text.strip_eq_iff.mpr ⟨hbare, haround⟩
  · rintro rfl
    obtain ⟨hbare, haround⟩ := Text.strip_eq_iff.mp hstrip.symm
    exact .some hbare haround

/-- A folder has no slashes at its ends, if it is one at all. -/
theorem bare_of_isFolder (h : IsFolder path folder) : Text.Bare (· == '/') folder.toList := by
  cases h with
  | none => exact Text.bare_nil
  | some bare => exact bare

/-- Every location names one folder, and only one, so a theorem may speak of the folder. -/
theorem exists_isFolder_iff (path : Option String) :
    ∃ folder, ∀ other, IsFolder path other ↔ other = folder := by
  cases path with
  | none =>
    refine ⟨"", fun other => ⟨?_, ?_⟩⟩
    · rintro ⟨⟩
      rfl
    · rintro rfl
      exact .none
  | some path => exact ⟨trimSlashes path, fun other => isFolder_some_iff.trans eq_comm⟩

/-! ## Where a document is looked for -/

/-- The folder never leads back to the root, since it does not begin with a slash. -/
theorem isAbsolute_folder (h : IsFolder path folder) : isAbsolute folder = false := by
  have hstart := (bare_of_isFolder h).start
  unfold Path.isAbsolute
  cases hhead : folder.toList.head? with
  | none => rfl
  | some c => simpa using hstart c hhead

/-- A name that does not begin with a slash stays below the folder. The two joinings put one slash
each, unless it is there or there is nothing to part. -/
theorem pathOf_of_relative (base : String) (h : IsFolder path folder)
    (hname : isAbsolute name = false) :
    pathOf base path name = documentPath base folder name := by
  have hjson : isAbsolute (name ++ ".json") = false := by rwa [Path.isAbsolute_append_json]
  have hrelative := isAbsolute_folder h
  have hbare := bare_of_isFolder h
  unfold documentPath
  cases h with
  | none =>
    show Path.join base (name ++ ".json") = _
    rw [Path.join_of_relative hjson, if_pos rfl]
    simp only [String.append_assoc]
  | @some path _ bare around =>
    have htrim : trimSlashes path = folder := isFolder_some_iff.mp (.some bare around)
    show Path.join (Path.join base (trimSlashes path)) (name ++ ".json") = _
    rw [htrim, Path.join_of_relative hrelative, Path.join_of_relative hjson]
    -- A path of slashes alone names the empty folder, and then the second joining adds nothing.
    by_cases hfolder : folder = ""
    · rw [if_pos hfolder, hfolder, String.append_empty, Path.slashBelow_slashBelow,
        String.append_empty]
      simp only [String.append_assoc]
    · rw [if_neg hfolder, Path.slashBelow_of_bare _ hfolder hbare.stop]
      simp only [String.append_assoc]

/-- A name that begins with a slash is all there is: the second joining drops what the first one
made. -/
theorem pathOf_of_absolute (base : String) (path : Option String) (hname : isAbsolute name = true) :
    pathOf base path name = name ++ ".json" := by
  have hjson : isAbsolute (name ++ ".json") = true := by rwa [Path.isAbsolute_append_json]
  exact Path.join_of_absolute hjson

/-- The directory and the folder show in the path unless both are empty, so a path that is the name
alone is not the one below them. -/
theorem documentPath_eq_iff :
    documentPath base folder name = name ++ ".json" ↔ base = "" ∧ folder = "" := by
  have hfront : ∀ front : String, front ++ name ++ ".json" = name ++ ".json" ↔ front = "" := by
    intro front
    rw [String.append_assoc]
    exact ⟨fun h => (String.append_left_inj _).mp (h.trans (String.empty_append).symm),
      fun h => by rw [h, String.empty_append]⟩
  unfold documentPath
  by_cases hfolder : folder = ""
  · rw [if_pos hfolder, hfront, String.append_eq_empty_iff]
    constructor
    · exact fun h => ⟨h.1, hfolder⟩
    · rintro ⟨rfl, -⟩
      exact ⟨rfl, rfl⟩
  · rw [if_neg hfolder, hfront]
    constructor
    · intro hcontra
      exact absurd (String.append_eq_empty_iff.mp hcontra).2 (by decide)
    · exact fun h => absurd h.2 hfolder

/-! ## Opening -/

/-- What is made of reading the file of a document. A missing file is no failure, since the next
location may have it; any other is one (specification, § E1.1). -/
def ofReading (name : String) : Except FileCause String → Except Failure (Option Supply)
  | .ok text => (Document.ofText name text).map fun grammar => some (.grammar grammar)
  | .error .notFound => .ok none
  | .error cause => .error (.file cause)

/-- Whatever the files are, the answer is what is made of this one. So no other file is opened. -/
def Opens (locator : Locator World) (path : Option String) (name file : String) : Prop :=
  ∀ world, (locator.load path name).run world =
    (ofReading name (world.files.readText file), world)

/-- The file that is opened is the one at the path that is put together for it. -/
theorem opens_pathOf (base : String) (path : Option String) (name : String) :
    Opens (ofDirectory base) path name (pathOf base path name) := by
  intro world
  show (loadFile base path name world.files, world) = _
  unfold loadFile ofReading
  split <;> simp_all

/-- **A document is looked for below the directory unless its name begins with a slash**
(specification, § E2.3). The file that is opened is that of the document, or else the name alone is
its path, whatever directory that leads to. So the directory is the front of the path exactly if the
name is relative or happens to spell it. The two kinds of names are the two ways of joining; in the
second, whether the path is right by chance is a question of what is empty. -/
theorem ofDirectory_opens (base : String) (path : Option String) (name : String) :
    ∃ folder file, (∀ other, IsFolder path other ↔ other = folder) ∧
      Opens (ofDirectory base) path name file ∧
      (file = documentPath base folder name ↔
        isAbsolute name = false ∨ (base = "" ∧ folder = "")) ∧
      ((∃ rest, file = base ++ rest) ↔
        isAbsolute name = false ∨ ∃ rest, name ++ ".json" = base ++ rest) ∧
      (isAbsolute name = true → file = name ++ ".json") := by
  obtain ⟨folder, honly⟩ := exists_isFolder_iff path
  have hfolder : IsFolder path folder := (honly folder).mpr rfl
  refine ⟨folder, pathOf base path name, honly, opens_pathOf base path name, ?_⟩
  cases hname : isAbsolute name with
  | false =>
    have hfile := pathOf_of_relative base hfolder hname
    -- Below the directory, with or without a folder, the path begins with it.
    have hbelow : ∃ rest, documentPath base folder name = base ++ rest := by
      unfold documentPath
      split
      · exact ⟨slashBelow base ++ name ++ ".json", by simp only [String.append_assoc]⟩
      · exact ⟨slashBelow base ++ folder ++ "/" ++ name ++ ".json",
          by simp only [String.append_assoc]⟩
    rw [hfile]
    exact ⟨iff_of_true rfl (.inl rfl), iff_of_true hbelow (.inl rfl), fun h => nomatch h⟩
  | true =>
    have hfile := pathOf_of_absolute base path hname
    rw [hfile, eq_comm, documentPath_eq_iff]
    simp

/-! A location that leads out of the directory. -/

/-- The text of a document that has a name and nothing else. -/
def deployText : String := "\x7b\"name\": \"deploy\"\x7d"

/-- The document is outside of `/specs`, which is empty. -/
def strayWorld : World where
  files := { root := .folder [("specs", .folder []),
    ("etc", .folder [("deploy.json", .file deployText.toUTF8)])] }

/-- The document that is looked for below `/specs` is missing, and one outside of it is loaded, by a
location whose name is a path from the root. -/
theorem ofDirectory_opens_elsewhere :
    IsFolder none "" ∧
    strayWorld.files.readText (documentPath "/specs" "" "/etc/deploy") = .error .notFound ∧
    (∃ grammar, ((ofDirectory "/specs").load none "/etc/deploy").run strayWorld =
      (.ok (some (.grammar grammar)), strayWorld) ∧ grammar.names = ["deploy"]) ∧
    ¬ Opens (ofDirectory "/specs") none "/etc/deploy"
      (documentPath "/specs" "" "/etc/deploy") := by
  have hmissing : strayWorld.files.readText (documentPath "/specs" "" "/etc/deploy") =
      .error .notFound := rfl
  have hread : strayWorld.files.readText (pathOf "/specs" none "/etc/deploy") = .ok deployText := by
    rfl
  have hnames : (Document.ofText "/etc/deploy" deployText).toOption.map (·.names) =
      some ["deploy"] := by
    decide +kernel
  obtain ⟨grammar, hdocument, hname⟩ := Option.map_eq_some_iff.mp hnames
  have hloaded : ((ofDirectory "/specs").load none "/etc/deploy").run strayWorld =
      (.ok (some (.grammar grammar)), strayWorld) := by
    rw [opens_pathOf, hread, ofReading]
    cases htext : Document.ofText "/etc/deploy" deployText with
    | error failure =>
      rw [htext] at hdocument
      cases hdocument
    | ok found =>
      rw [htext] at hdocument
      cases hdocument
      rfl
  refine ⟨.none, hmissing, ⟨grammar, hloaded, hname⟩, ?_⟩
  -- If the file below the directory were the one, nothing would have been found.
  intro hopens
  have hanswer := hopens strayWorld
  rw [hloaded, hmissing] at hanswer
  cases hanswer

end Locator

end CommandCompletion
