/-
What a candidate for a path leaves of the line.

A candidate replaces as many characters at the end of the line as the last
segment of the path has in the word's text. The line, though, holds the raw
word, in which quotes and escapes take room of their own. What is left reads as
the directory part of the word exactly if every character that is cut off stands
for itself (`words_splitEnd_iff`), and so for suggestions
(`suggest_keepsDirectory_iff`).

`cd ./src/my\ d` is the shortest way to see the difference: the last segment is
`my d`, but five characters of the line make it up.
-/
import CommandCompletion.Editor.Replacement
import CommandCompletion.Engine
import CommandCompletion.Proofs.Remembering
import CommandCompletion.Proofs.Splitting

set_option autoImplicit false

namespace CommandCompletion

open Editor (splitEnd)

/-! ## The end of a line -/

namespace Shell

variable {shell : Shell} {offset : Nat} {draft : Option Draft} {line : String} {count : Nat}
variable {cs front back : List Char}

/-- Each of the last `count` characters of the line stands for itself: where it stands, the reader
adds it to the text as it is. Stated by cuts of the line and so without following the reader. -/
def EndsLiterally (shell : Shell) (line : String) (count : Nat) : Prop :=
  ∀ before c after, line.toList = before ++ c :: after → after.length < count →
    (draftAt (Text.byteLength before) (shell.readFrom 0 none before).2).isLiteral shell c = true

/-- A stretch is literal if each of its characters is where it stands. Induction on the stretch; the
state of the reader at a character is what the characters before it have left. -/
theorem literalFrom_iff : shell.LiteralFrom offset draft cs ↔
    ∀ before c after, cs = before ++ c :: after →
      (draftAt (offset + Text.byteLength before)
        (shell.readFrom offset draft before).2).isLiteral shell c = true := by
  induction cs generalizing offset draft with
  | nil => simp [LiteralFrom]
  | cons c cs ih =>
    rw [LiteralFrom, ih]
    constructor
    · rintro ⟨hfirst, hrest⟩ before d after hsplit
      -- The character in question is the first one, or one of the rest.
      cases before with
      | nil =>
        cases hsplit
        exact hfirst
      | cons _ before =>
        cases hsplit
        rw [Text.byteLength_cons, ← Nat.add_assoc]
        exact hrest before d after rfl
    · intro h
      refine ⟨h [] c cs rfl, ?_⟩
      rintro before d after rfl
      have hat := h (c :: before) d after rfl
      rw [Text.byteLength_cons, ← Nat.add_assoc] at hat
      exact hat

/-- The end of a line is literal if the stretch that ends it is. -/
theorem endsLiterally_iff (hline : line.toList = front ++ back) (hcount : back.length = count) :
    shell.EndsLiterally line count ↔
      shell.LiteralFrom (Text.byteLength front) (shell.readFrom 0 none front).2 back := by
  have hstate : ∀ before, (shell.readFrom 0 none (front ++ before)).2 =
      (shell.readFrom (Text.byteLength front) (shell.readFrom 0 none front).2 before).2 := by
    intro before
    rw [readFrom_append, Nat.zero_add]
  rw [literalFrom_iff]
  constructor
  · rintro h before c after rfl
    have hlength : after.length < count := by
      rw [← hcount, List.length_append, List.length_cons]
      omega
    have hat := h (front ++ before) c after (by rw [hline, List.append_assoc]) hlength
    rw [hstate, Text.byteLength_append] at hat
    exact hat
  · intro h before c after hsplit hlength
    -- The character lies in the stretch, since it is one of the last ones.
    rw [hline] at hsplit
    rcases List.append_eq_append_iff.mp hsplit with ⟨more, rfl, hmore⟩ | ⟨more, hfront, hmore⟩
    · have hat := h more c after hmore
      rw [hstate, Text.byteLength_append]
      exact hat
    · cases more with
      | nil =>
        have hbefore : before = front := by rw [hfront, List.append_nil]
        subst hbefore
        have hat := h [] c after hmore.symm
        simpa using hat
      | cons d more =>
        have hafter : after = more ++ back := by
          simp only [List.cons_append, List.cons.injEq] at hmore
          exact hmore.2
        rw [hafter, List.length_append] at hlength
        omega

/-- Before a literal stretch that ends a word, the rest of the word has been read. The stretch was
appended as it is, so what was in the text before it is the part that was to be left. -/
theorem readFrom_of_literal_end {earlier : List Word} {last : Draft} {part base : List Char}
    (hread : shell.readFrom 0 none (front ++ back) = (earlier, some last))
    (hliteral : shell.LiteralFrom (Text.byteLength front) (shell.readFrom 0 none front).2 back)
    (htext : last.text.toList = part ++ base) (hlength : back.length = base.length)
    (hpart : part ≠ []) : ∃ draft, shell.readFrom 0 none front = (earlier, some draft) ∧
      draft.text.toList = part := by
  rw [readFrom_append, Nat.zero_add, Prod.mk.injEq] at hread
  obtain ⟨hended, hlast⟩ := hread
  by_cases hback : back = []
  · subst hback
    have hbase : base = [] := List.length_eq_zero_iff.mp hlength.symm
    rw [readFrom_nil] at hended hlast
    rw [List.append_nil] at hended
    refine ⟨last, Prod.ext hended hlast, ?_⟩
    rw [htext, hbase, List.append_nil]
  · obtain ⟨last', hstretch, hlast'⟩ := readFrom_of_literalFrom hback hliteral
    rw [hstretch] at hended hlast
    rw [List.append_nil] at hended
    cases hlast
    rw [htext] at hlast'
    have hsplit := (List.append_inj' hlast' hlength.symm).1
    cases hstate : (shell.readFrom 0 none front).2 with
    | none =>
      -- No word was begun, so there is no part of it before the stretch.
      rw [hstate] at hsplit
      exact absurd hsplit hpart
    | some draft =>
      rw [hstate] at hsplit
      exact ⟨draft, Prod.ext hended hstate, hsplit.symm⟩

/-- **Cutting off a part of the last word** leaves the rest of its text, and the words before it,
exactly if what is cut off is literal. The two directions use the same reading of the line in two
stretches: in one the first is known to leave the part, so the second added as many characters as it
has (`readFrom_within`); in the other the second is known to add itself. -/
theorem words_splitEnd_iff {earlier : List Word} {current : Word} {part base : String}
    (hwords : shell.words line = earlier ++ [current]) (hcurrent : current.complete = false)
    (htext : current.text = part ++ base) (hpart : part ≠ "") :
    (∃ word, shell.words (splitEnd line base.length).1 = earlier ++ [word] ∧
        word.complete = false ∧ word.text = part) ↔ shell.EndsLiterally line base.length := by
  obtain ⟨last, hread, rfl⟩ := words_eq_concat_iff.mp ⟨hwords, hcurrent⟩
  replace htext : last.text.toList = part.toList ++ base.toList := by
    rw [← String.toList_append, ← htext]
    rfl
  -- The raw word is at least as long as its text, so there is enough to cut off.
  have henough : base.toList.length ≤ line.toList.length := by
    have hlength := length_text_le hread
    rw [htext, List.length_append] at hlength
    have hnone : (draftAt 0 none).text.toList.length = 0 := rfl
    omega
  let kept := line.toList.length - base.length
  let front := line.toList.take kept
  let back := line.toList.drop kept
  have hline : line.toList = front ++ back := (List.take_append_drop kept _).symm
  have hsize : base.toList.length = base.length := String.length_toList
  have hcount : back.length = base.length := by
    rw [List.length_drop]
    omega
  have hcut : (splitEnd line base.length).1.toList = front := String.toList_ofList
  -- From here on the line is the stretch that is kept and the stretch that is cut off.
  rw [endsLiterally_iff hline hcount]
  rw [hline] at hread
  constructor
  · rintro ⟨word, hwords, hword, hpart⟩
    obtain ⟨draft, hfront, rfl⟩ := words_eq_concat_iff.mp ⟨hwords, hword⟩
    rw [hcut] at hfront
    rw [readFrom_append, Nat.zero_add, hfront, Prod.mk.injEq] at hread
    obtain ⟨hended, hlast⟩ := hread
    rw [hfront]
    have hnone : (shell.readFrom (Text.byteLength front) (some draft) back).1 = [] :=
      List.append_right_eq_self.mp hended
    obtain ⟨added, hadded, -, hliteral⟩ := readFrom_within (Prod.ext hnone hlast)
    refine hliteral.mp ?_
    have hsame : part.toList = draft.text.toList := by rw [← hpart]; rfl
    rw [htext, hsame] at hadded
    rw [← List.append_cancel_left hadded, hcount, String.length_toList]
  · intro hliteral
    have hne : part.toList ≠ [] := fun h => hpart (String.toList_eq_nil_iff.mp h)
    have hsame : back.length = base.toList.length := by rw [hcount, hsize]
    obtain ⟨draft, hfront, hdraft⟩ :=
      readFrom_of_literal_end hread hliteral htext hsame hne
    refine ⟨_, (words_eq_concat_iff.mpr ⟨draft, ?_, rfl⟩).1, rfl, String.toList_injective hdraft⟩
    rw [hcut, hfront]

end Shell

/-! ## Suggestions for paths -/

/-- A word in progress that has a text is the last word of the line. -/
theorem TypedLine.words_of_ofLine? {shell : Shell} {line : String} {typed : TypedLine}
    (h : TypedLine.ofLine? shell line = some typed) (htext : typed.current.text ≠ "") :
    shell.words line = typed.earlier ++ [typed.current] ∧ typed.current.complete = false := by
  unfold TypedLine.ofLine? at h
  dsimp only at h
  split at h
  · cases h
  · rename_i last hlast
    split at h
    · cases h
      exact absurd rfl htext
    · rename_i hcomplete
      cases h
      obtain ⟨earlier, hwords⟩ := List.getLast?_eq_some_iff.mp hlast
      refine ⟨?_, by simpa using hcomplete⟩
      rw [hwords, List.dropLast_concat]

namespace PathReading

variable {host : Host} {shell : Shell} {cwd text : String}

/-- Only a word with a directory part reads as a path, and it is complete if nothing comes after
that part. -/
theorem ofText_of_isPath (h : (ofText host shell cwd text).isPath = true) :
    shell.directoryPart text ≠ "" ∧
      (ofText host shell cwd text).isPathComplete = (shell.baseName text).isEmpty := by
  unfold ofText at h ⊢
  split at h
  · cases h
  · rename_i hdirectory
    rw [if_neg hdirectory]
    dsimp only at h ⊢
    split at h
    · rename_i hfolder
      rw [if_pos hfolder]
      exact ⟨fun hempty => hdirectory (String.isEmpty_iff.mpr hempty), rfl⟩
    · cases h

/-- Of a path, the last segment is replaced. -/
theorem charactersToDrop_of_isPath {line : String} {word : Word}
    (h : (ofText host shell cwd word.text).isPath = true) :
    charactersToDrop shell line word (ofText host shell cwd word.text) =
      (shell.baseName word.text).length := by
  unfold charactersToDrop
  rw [if_pos h, (ofText_of_isPath h).2]
  split
  · rename_i hempty
    rw [String.isEmpty_iff.mp hempty]
    rfl
  · rfl

end PathReading

namespace Engine

variable {σ : Type} {engine : Engine σ} {home : Option String} {shell : Shell}
variable {cwd line : String} {typed : TypedLine} {command : Word} {rest : List Word}
variable {root : CatalogNode} {memory loaded after : Memory σ} {result : Suggestions}

/-- How the word in progress reads once the grammar is loaded. -/
def readingIn (engine : Engine σ) (home : Option String) (shell : Shell) (cwd : String)
    (loaded : Memory σ) (text : String) : PathReading :=
  PathReading.ofText { files := engine.files loaded.world, home := home } shell cwd text

/-- Suggestions are made for a place, and replace as much as was found out with it. -/
theorem exists_place_of_suggest (htyped : TypedLine.ofLine? shell line = some typed)
    (h : (engine.suggest home shell cwd line).run memory = (.ok (some result), after)) :
    ∃ context dropped walked, (engine.locate home shell cwd line typed).run memory =
      (.ok (some context, dropped), walked) ∧ result.charactersToDrop = dropped := by
  unfold suggest at h
  rw [htyped] at h
  obtain ⟨place, walked, hplace, h⟩ := Recall.exists_of_run_bind h
  obtain ⟨host, seen, hhost, h⟩ := Recall.exists_of_run_bind h
  cases place with
  | error failure => cases h
  | ok found =>
    obtain ⟨context?, dropped⟩ := found
    obtain ⟨hresult, -⟩ := Prod.mk.inj h
    obtain ⟨context, hcontext, hanswer⟩ := Option.bind_eq_some_iff.mp (Except.ok.inj hresult)
    cases hcontext
    obtain ⟨candidates, -, hanswer⟩ := Option.bind_eq_some_iff.mp hanswer
    refine ⟨context, dropped, walked, hplace, ?_⟩
    rw [← Option.some.inj hanswer]

/-- Suggestions for a command with a grammar replace as much as the reading of the word in progress
says: the walk has no say in it. -/
theorem charactersToDrop_of_suggest (htyped : TypedLine.ofLine? shell line = some typed)
    (hearlier : typed.earlier = command :: rest)
    (hroot : (engine.catalog.loadRoot command.text).run memory = (some root, loaded))
    (h : (engine.suggest home shell cwd line).run memory = (.ok (some result), after)) :
    result.charactersToDrop = charactersToDrop shell line typed.current
      (engine.readingIn home shell cwd loaded typed.current.text) := by
  obtain ⟨context, dropped, walked, hplace, hdropped⟩ := exists_place_of_suggest htyped h
  rw [hdropped]
  unfold locate at hplace
  dsimp only at hplace
  rw [hearlier, Recall.run_bind_of hroot] at hplace
  obtain ⟨host, seen, hhost, hplace⟩ := Recall.exists_of_run_bind hplace
  cases hhost
  obtain ⟨found, there, hfound, hplace⟩ := Recall.exists_of_run_bind hplace
  cases found <;> cases hplace
  rfl

/-- **Suggestions for a path keep its directory part exactly if the characters they replace are
literal.** The line is cut where the replaced part begins. What is left has the same words before
the last one, and the last one, still in progress, reads as the directory part of what was typed.
That directory prefixes are preserved is asked for without a condition (specification, § 4.4), and
holds under this one: characters are counted in the text, and cut off from the line. -/
theorem suggest_keepsDirectory_iff (htyped : TypedLine.ofLine? shell line = some typed)
    (hearlier : typed.earlier = command :: rest)
    (hroot : (engine.catalog.loadRoot command.text).run memory = (some root, loaded))
    (hpath : (engine.readingIn home shell cwd loaded typed.current.text).isPath = true)
    (hsuggest : (engine.suggest home shell cwd line).run memory = (.ok (some result), after)) :
    (∃ word, shell.words (splitEnd line result.charactersToDrop).1 = typed.earlier ++ [word] ∧
        word.complete = false ∧ word.text = shell.directoryPart typed.current.text) ↔
      shell.EndsLiterally line result.charactersToDrop := by
  have hdirectory : shell.directoryPart typed.current.text ≠ "" :=
    (PathReading.ofText_of_isPath hpath).1
  have htext := (shell.directoryPart_append_baseName typed.current.text).symm
  have hne : typed.current.text ≠ "" := by
    intro hempty
    rw [hempty] at hdirectory
    exact hdirectory rfl
  obtain ⟨hwords, hcurrent⟩ := TypedLine.words_of_ofLine? htyped hne
  have hdropped : result.charactersToDrop = (shell.baseName typed.current.text).length := by
    rw [charactersToDrop_of_suggest htyped hearlier hroot hsuggest]
    exact PathReading.charactersToDrop_of_isPath hpath
  rw [hdropped]
  exact Shell.words_splitEnd_iff hwords hcurrent htext hdirectory

/-! A directory whose name has a space in it. -/

/-- Knows `cd` alone, which takes a directory. -/
def folderEngine : Engine World := ofCatalog (fun world => world.files) {
  source := Source.ofEntries [("cd", .grammar {
    id := ()
    names := ["cd"]
    args := [{ name := "dir", templates := [.folders] }] })]
  probe := ⟨fun command _ => return .error (.probeNotStarted command "no commands")⟩ }

/-- `my dir` below `src`, before anything was loaded. -/
def spacedMemory : Memory World := folderEngine.catalog.initialMemory {
  files := { root := .folder [("w", .folder [("src", .folder [("my dir", .folder [])])])] } }

/-- The number of characters that are replaced, if there are suggestions. -/
def dropped? (line : String) : Option Nat :=
  match ((folderEngine.suggest none .bash "/w" line).run spacedMemory).1 with
  | .ok answer => answer.map fun result => result.charactersToDrop
  | .error _ => none

theorem exists_of_dropped? {line : String} {count : Nat} (h : dropped? line = some count) :
    ∃ result after, (folderEngine.suggest none .bash "/w" line).run spacedMemory =
      (.ok (some result), after) ∧ result.charactersToDrop = count := by
  unfold dropped? at h
  cases hrun : (folderEngine.suggest none .bash "/w" line).run spacedMemory with
  | mk answer after =>
    rw [hrun] at h
    dsimp only at h
    split at h
    · obtain ⟨result, rfl, hcount⟩ := Option.map_eq_some_iff.mp h
      exact ⟨result, after, rfl, hcount⟩
    · cases h

/-- What is remembered once the grammar of `cd` is loaded. -/
def spacedLoaded : Memory World := ((folderEngine.catalog.loadRoot "cd").run spacedMemory).2

theorem exists_folderRoot : ∃ root,
    (folderEngine.catalog.loadRoot "cd").run spacedMemory = (some root, spacedLoaded) := ⟨_, rfl⟩

/-- The word in progress of a line that begins with `cd`. -/
def typedAfterCd (text : String) (stop : Nat) : TypedLine where
  earlier := [Word.ofText "cd" true]
  current := { text := text, complete := false, isOption := false, span := ⟨3, stop⟩ }
  betweenWords := false

/-- With a plain word the directory is kept. -/
theorem suggest_keepsDirectory_plain : ∃ root result after,
    TypedLine.ofLine? .bash "cd ./src/my" = some (typedAfterCd "./src/my" 11) ∧
    (folderEngine.catalog.loadRoot "cd").run spacedMemory = (some root, spacedLoaded) ∧
    (folderEngine.readingIn none .bash "/w" spacedLoaded "./src/my").isPath = true ∧
    (folderEngine.suggest none .bash "/w" "cd ./src/my").run spacedMemory =
      (.ok (some result), after) ∧
    Shell.bash.EndsLiterally "cd ./src/my" result.charactersToDrop := by
  have htyped : TypedLine.ofLine? .bash "cd ./src/my" = some (typedAfterCd "./src/my" 11) := by
    decide +kernel
  obtain ⟨root, hroot⟩ := exists_folderRoot
  have hpath : (folderEngine.readingIn none .bash "/w" spacedLoaded "./src/my").isPath = true := by
    decide +kernel
  obtain ⟨result, after, hsuggest, hcount⟩ :=
    exists_of_dropped? (by decide +kernel : dropped? "cd ./src/my" = some 2)
  have hiff := suggest_keepsDirectory_iff htyped rfl hroot hpath hsuggest
  refine ⟨root, result, after, htyped, hroot, hpath, hsuggest, hiff.mp ?_⟩
  rw [hcount]
  exact ⟨{ text := "./src/", complete := false, isOption := false, span := ⟨3, 9⟩ },
    by decide +kernel, rfl, by decide +kernel⟩

/-- With an escaped space in the last segment, a part of the segment is left. -/
theorem suggest_leaves_segment : ∃ root result after,
    TypedLine.ofLine? .bash "cd ./src/my\\ d" = some (typedAfterCd "./src/my d" 14) ∧
    (folderEngine.catalog.loadRoot "cd").run spacedMemory = (some root, spacedLoaded) ∧
    (folderEngine.readingIn none .bash "/w" spacedLoaded "./src/my d").isPath = true ∧
    (folderEngine.suggest none .bash "/w" "cd ./src/my\\ d").run spacedMemory =
      (.ok (some result), after) ∧
    ¬ ∃ word, Shell.bash.words (splitEnd "cd ./src/my\\ d" result.charactersToDrop).1 =
        (typedAfterCd "./src/my d" 14).earlier ++ [word] ∧ word.complete = false ∧
      word.text = Shell.bash.directoryPart "./src/my d" := by
  have htyped : TypedLine.ofLine? .bash "cd ./src/my\\ d" =
      some (typedAfterCd "./src/my d" 14) := by
    decide +kernel
  obtain ⟨root, hroot⟩ := exists_folderRoot
  have hpath : (folderEngine.readingIn none .bash "/w" spacedLoaded "./src/my d").isPath =
      true := by
    decide +kernel
  obtain ⟨result, after, hsuggest, hcount⟩ :=
    exists_of_dropped? (by decide +kernel : dropped? "cd ./src/my\\ d" = some 4)
  refine ⟨root, result, after, htyped, hroot, hpath, hsuggest, ?_⟩
  rw [hcount]
  rintro ⟨word, hwords, -, htext⟩
  have hleft : ((Shell.bash.words (splitEnd "cd ./src/my\\ d" 4).1).getLast?).map (·.text) =
      some "./src/m" := by
    decide +kernel
  have hdirectory : Shell.bash.directoryPart "./src/my d" = "./src/" := by decide +kernel
  rw [hwords, List.getLast?_concat, Option.map_some, htext, hdirectory] at hleft
  exact absurd hleft (by decide)

end Engine

end CommandCompletion
