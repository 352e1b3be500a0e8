/-
The word in progress is split in one way.

Three things depend on where a word that reads as a path is split: the directory whose
entries are offered, the text that candidates have to begin with, and the number of
characters that they replace. Each is worked out in a place of its own: by the reading
of the word, by the context that the walk arrives in, and by the engine. The context
knows of the reading only through two flags of the last word, which are set before the
walk sets out and must reach its end.

They do, since a walk never takes the word in progress (`Catalog.current_of_locate`), so
all three speak of the same split (`Engine.locate_splitsAlike`).
-/
import CommandCompletion.Proofs.LookedAt
import CommandCompletion.Proofs.UnknownCommands
import CommandCompletion.Proofs.WordInProgress

set_option autoImplicit false

namespace CommandCompletion

/-! ## The reading -/

namespace PathReading

variable {host : Host} {shell : Shell} {cwd text : String}

/-- A word that is no path has nothing to do with any directory. -/
theorem ofText_of_not_isPath (h : (ofText host shell cwd text).isPath = false) :
    ofText host shell cwd text = { directory := cwd } := by
  unfold ofText at h ⊢
  split
  · rfl
  · rename_i hdirectory
    rw [if_neg hdirectory] at h
    dsimp only at h ⊢
    split
    · rename_i hfolder
      rw [if_pos hfolder] at h
      cases h
    · rfl

/-- A path leads to the directory that its directory part names, and it is there: a word is read as
a path only if something is found (specification, § E2.5, path resolver). -/
theorem directory_of_isPath (h : (ofText host shell cwd text).isPath = true) :
    (ofText host shell cwd text).directory = Path.join cwd (candidate host.home shell text) ∧
      host.files.isDirectory (Path.join cwd (candidate host.home shell text)) = true := by
  unfold ofText at h ⊢
  split at h
  · cases h
  · rename_i hdirectory
    rw [if_neg hdirectory]
    dsimp only at h ⊢
    split at h
    · rename_i hfolder
      rw [if_pos hfolder]
      dsimp only
      exact ⟨rfl, hfolder⟩
    · cases h

/-- A path falls into a directory part that ends in its last separator, and the rest. -/
theorem parts_of_isPath (h : (ofText host shell cwd text).isPath = true) :
    shell.Parts text (shell.directoryPart text) (shell.baseName text) := by
  rcases shell.plain_or_exists_parts text with hplain | ⟨directory, last, hparts⟩
  · exact absurd (Shell.directoryPart_of_plain hplain) (ofText_of_isPath h).1
  · rw [Shell.directoryPart_of_parts hparts, Shell.baseName_of_parts hparts]
    exact hparts

end PathReading

/-! ## The context -/

namespace Catalog

variable {σ : Type} {catalog : Catalog σ} {directory : String} {shell : Shell}
variable {memory after : Memory σ} {root : CatalogNode} {earlier : List Word} {typed : Word}

/-- **The word in progress reaches the end of the walk as it set out**, and so do the directory and
the shell. A walk takes complete words only and stops in front of the first that is not, so what is
left at its end is that word alone. -/
theorem current_of_locate {context : Context Nat}
    (hearlier : ∀ word ∈ earlier, word.complete = true) (htyped : typed.complete = false)
    (h : (catalog.locate directory shell (earlier ++ [typed]) root).run memory =
      (.ok (some context), after)) :
    context.current = some typed ∧ context.directory = directory ∧ context.shell = shell := by
  have hnames : Walk.NamesNext { words := earlier ++ [typed], node := root } :=
    Walk.namesNext_of_command rfl
  have hwaits : ∀ word ∈ [typed].head?, word.complete = false := by
    intro word hword
    cases hword
    exact htyped
  obtain ⟨turns, hrun⟩ := locate_eq_some_iff.mp h
  obtain ⟨last, hreaches, hstands, expected, -, rfl⟩ := Walk.reaches_of_run hrun
  obtain ⟨front, -, hlast, -⟩ := hreaches.swapEnd hnames rfl hwaits (List.cons_ne_nil typed [])
  -- A walk does not end in front of a complete word.
  have hfront : front = [] := by
    cases front with
    | nil => rfl
    | cons word front =>
      have hcomplete := hreaches.complete_of_front hnames rfl hlast hearlier word
        List.mem_cons_self
      rw [hstands word (by rw [hlast]; rfl)] at hcomplete
      cases hcomplete
  refine ⟨?_, rfl, rfl⟩
  show last.words.head? = some typed
  rw [hlast, hfront]
  rfl

end Catalog

/-- The words of a line are not flagged as paths. -/
theorem TypedLine.isPath_current {shell : Shell} {line : String} {typed : TypedLine}
    (h : TypedLine.ofLine? shell line = some typed) :
    typed.current.isPath = false ∧ typed.current.complete = false := by
  rcases ofLine?_cases h with ⟨words, -, -, rfl⟩ | ⟨words, last, -, -, rfl⟩
  · exact ⟨rfl, rfl⟩
  · exact ⟨rfl, rfl⟩

/-- What has to be begun with is the last segment of a path, and all of any other word. The context
has two flags to tell these apart, and here they are shown to say what the reading said. -/
theorem Context.typed_readAs {context : Context Nat} {word : Word} {host : Host} {cwd : String}
    (hplain : word.isPath = false)
    (hcurrent : context.current =
      some (word.readAs (PathReading.ofText host context.shell cwd word.text))) :
    context.typed = if (PathReading.ofText host context.shell cwd word.text).isPath then
      context.shell.baseName word.text else word.text := by
  unfold Context.typed
  rw [hcurrent]
  dsimp only
  -- The flags are written here and read in the line before; nothing sets them in between.
  unfold Word.readAs
  split
  · rename_i hpath
    dsimp only
    rw [(PathReading.ofText_of_isPath hpath).2, if_pos rfl]
    split
    · rename_i hempty
      exact (String.isEmpty_iff.mp hempty).symm
    · rfl
  · rw [hplain, if_neg Bool.false_ne_true]

/-! ## The line -/

namespace Engine

variable {σ : Type} {engine : Engine σ} {home : Option String} {shell : Shell}
variable {cwd line : String} {typed : TypedLine} {command : Word} {rest : List Word}
variable {root : CatalogNode} {memory loaded walked : Memory σ}
variable {context : Context Nat} {dropped : Nat}

/-- What is known about the word in progress speaks of one split: how it reads as a path,
where the walk has arrived, and how many characters are replaced. -/
structure SplitsAlike (home : Option String) (shell : Shell) (files : Files) (cwd line : String)
    (typed : TypedLine) (context : Context Nat) (dropped : Nat) : Prop where
  /-- Of a path, the last segment is being typed, and the rest is the directory. -/
  path : (PathReading.ofText ⟨files, home⟩ shell cwd typed.current.text).isPath = true →
    shell.Parts typed.current.text (shell.directoryPart typed.current.text)
      (shell.baseName typed.current.text) ∧
    ((PathReading.ofText ⟨files, home⟩ shell cwd typed.current.text).isPathComplete = true ↔
      shell.baseName typed.current.text = "") ∧
    context.directory =
      (PathReading.ofText ⟨files, home⟩ shell cwd typed.current.text).directory ∧
    context.directory = Path.join cwd (PathReading.candidate home shell typed.current.text) ∧
    files.isDirectory context.directory = true ∧
    context.typed = shell.baseName typed.current.text ∧
    dropped = context.typed.length
  /-- Any other word is typed as a whole, and replaced as it stands on the line. -/
  word : (PathReading.ofText ⟨files, home⟩ shell cwd typed.current.text).isPath = false →
    context.typed = typed.current.text ∧ context.directory = cwd ∧
    ∃ front raw, TypedLine.Parts shell line typed front raw ∧ dropped = raw.length

/-- The place of a line whose command has a grammar, and what is replaced there. -/
theorem locate_of_root (hearlier : typed.earlier = command :: rest)
    (hroot : (engine.catalog.loadRoot command.text).run memory = (some root, loaded))
    (h : (engine.locate home shell cwd line typed).run memory =
      (.ok (some context, dropped), walked)) :
    (engine.catalog.locate
        (engine.readingIn home shell cwd loaded typed.current.text).directory shell
        (rest ++ [typed.current.readAs
          (engine.readingIn home shell cwd loaded typed.current.text)]) root).run loaded =
      (.ok (some context), walked) ∧
    dropped = charactersToDrop shell line typed.current
      (engine.readingIn home shell cwd loaded typed.current.text) := by
  unfold locate at h
  dsimp only at h
  rw [hearlier, Recall.run_bind_of hroot] at h
  obtain ⟨host, seen, hhost, h⟩ := Recall.exists_of_run_bind h
  cases hhost
  obtain ⟨found, there, hfound, h⟩ := Recall.exists_of_run_bind h
  cases found with
  | error failure => cases h
  | ok found =>
    cases h
    exact ⟨hfound, rfl⟩

/-- **The directory that is listed, the text that is filtered by and the number of characters that
are replaced belong to one split of the word** (specification, § 4.4, step 3), for every line whose
command has a grammar. Suggestions for the line are those of that context, and replace that many
characters. The context is told of the split by the flags of the word in progress, which reach the
end of the walk as they set out (`Catalog.current_of_locate`). -/
theorem locate_splitsAlike (htyped : TypedLine.ofLine? shell line = some typed)
    (hearlier : typed.earlier = command :: rest)
    (hroot : (engine.catalog.loadRoot command.text).run memory = (some root, loaded))
    (hplace : (engine.locate home shell cwd line typed).run memory =
      (.ok (some context, dropped), walked)) :
    SplitsAlike home shell (engine.files loaded.world) cwd line typed context dropped ∧
    ∀ result after, (engine.suggest home shell cwd line).run memory = (.ok (some result), after) →
      result.charactersToDrop = dropped ∧
      engine.recommender context
        ((engine.files walked.world).entryNames context.directory) = some result.candidates := by
  obtain ⟨hplain, hincomplete⟩ := TypedLine.isPath_current htyped
  have hcomplete : ∀ word ∈ rest, word.complete = true := by
    intro word hmem
    refine ((TypedLine.complete_of_ofLine? htyped).2 word ?_).1
    rw [hearlier]
    exact List.mem_cons_of_mem _ hmem
  obtain ⟨hlocate, hdropped⟩ := locate_of_root hearlier hroot hplace
  -- Reading the word as a path sets two flags and leaves open whether it is complete.
  have hflagged : (typed.current.readAs
      (engine.readingIn home shell cwd loaded typed.current.text)).complete = false := by
    unfold Word.readAs
    split
    · exact hincomplete
    · exact hincomplete
  obtain ⟨hcurrent, hdirectory, hshell⟩ := Catalog.current_of_locate hcomplete hflagged hlocate
  unfold readingIn at hcurrent hdirectory hdropped
  have htext := Context.typed_readAs hplain (by rw [hshell]; exact hcurrent)
  rw [hshell] at htext
  refine ⟨⟨fun hpath => ?_, fun hword => ?_⟩, fun result after hsuggest => ?_⟩
  -- Of a path, the last segment is typed, and the engine counts its characters.
  · rw [if_pos hpath] at htext
    obtain ⟨hjoined, hfolder⟩ := PathReading.directory_of_isPath hpath
    refine ⟨PathReading.parts_of_isPath hpath, ?_, hdirectory, hdirectory.trans hjoined, ?_, htext,
      ?_⟩
    · rw [(PathReading.ofText_of_isPath hpath).2, String.isEmpty_iff]
    · rw [hdirectory, hjoined]
      exact hfolder
    · rw [hdropped, htext]
      exact PathReading.charactersToDrop_of_isPath hpath
  -- Any other word is typed as a whole, and what stands of it on the line is replaced.
  · rw [if_neg (by rw [hword]; exact Bool.false_ne_true)] at htext
    rw [PathReading.ofText_of_not_isPath hword] at hdirectory hdropped
    obtain ⟨front, raw, hparts⟩ := TypedLine.exists_parts htyped
    exact ⟨htext, hdirectory, front, raw, hparts, hdropped.trans hparts.rawLength⟩
  -- Suggestions are made at the place that was found, so they go by the same context and number.
  · rw [suggest_eq_offer htyped, Recall.run_bind_of hplace] at hsuggest
    obtain ⟨hanswer, -⟩ := Prod.mk.inj hsuggest
    obtain ⟨here, hhere, hanswer⟩ := Option.bind_eq_some_iff.mp (Except.ok.inj hanswer)
    cases hhere
    obtain ⟨candidates, hcandidates, hanswer⟩ := Option.bind_eq_some_iff.mp hanswer
    cases hanswer
    exact ⟨rfl, hcandidates⟩

/-- Where backslashes separate, `.\src\my` is typed in `.\src\`, and `my` is replaced. -/
theorem locate_splitsAlike_backslashes : ∃ root context walked,
    TypedLine.ofLine? .cmd "cd .\\src\\my" = some (typedAfterCd ".\\src\\my" 11) ∧
    (folderEngine.catalog.loadRoot "cd").run spacedMemory = (some root, spacedLoaded) ∧
    (folderEngine.locate none .cmd "/w" "cd .\\src\\my" (typedAfterCd ".\\src\\my" 11)).run
      spacedMemory = (.ok (some context, 2), walked) ∧
    context.directory = "/w/./src/" ∧
    SplitsAlike none .cmd spacedLoaded.world.files "/w" "cd .\\src\\my"
      (typedAfterCd ".\\src\\my" 11) context 2 := by
  have htyped : TypedLine.ofLine? .cmd "cd .\\src\\my" =
      some (typedAfterCd ".\\src\\my" 11) := by
    decide +kernel
  obtain ⟨root, hroot⟩ := exists_folderRoot
  have harrives : ((folderEngine.locate none .cmd "/w" "cd .\\src\\my"
        (typedAfterCd ".\\src\\my" 11)).run spacedMemory).1.toOption.bind (fun place =>
          place.1.map fun context => (context.directory, place.2)) = some ("/w/./src/", 2) := by
    decide +kernel
  obtain ⟨⟨place, walked⟩, hplace⟩ : ∃ result, (folderEngine.locate none .cmd "/w"
      "cd .\\src\\my" (typedAfterCd ".\\src\\my" 11)).run spacedMemory = result := ⟨_, rfl⟩
  rw [hplace] at harrives
  obtain ⟨⟨context?, dropped⟩, hfound, hcontext⟩ := Option.bind_eq_some_iff.mp harrives
  obtain ⟨context, rfl, hpair⟩ := Option.map_eq_some_iff.mp hcontext
  obtain ⟨hdirectory, rfl⟩ := Prod.mk.inj hpair
  cases place with
  | error failure => cases hfound
  | ok place =>
    cases hfound
    exact ⟨root, context, walked, htyped, hroot, hplace, hdirectory,
      (locate_splitsAlike htyped rfl hroot hplace).1⟩

end Engine

end CommandCompletion
