/-
What a candidate leaves of the words before it.

A word begins where nothing is in progress, so the line up to the word being
typed can be read alone: it has the complete words of the line and leaves nothing
open (`TypedLine.exists_parts`). A candidate for a word that is no path replaces
the characters from there on, quotes and escapes included, and what is put in
their place is read as a word of its own (`words_insert`).

Of a path only the last segment is replaced. Its characters are counted in the
text, which is no longer than the raw word, so the cut may fall into the word but
never before it.
-/
import CommandCompletion.Proofs.PathReplacement
import CommandCompletion.Proofs.Quoting
import CommandCompletion.Proofs.Requests

set_option autoImplicit false

namespace CommandCompletion

open Editor (splitEnd replaceStart)

/-! ## Cutting at a character -/

namespace Editor

variable {line : String} {count : Nat} {front back : List Char}

/-- Cutting off a part of what ends the line keeps all that comes before. -/
theorem toList_splitEnd (hline : line.toList = front ++ back) (hcount : count ≤ back.length) :
    (splitEnd line count).1.toList = front ++ back.take (back.length - count) := by
  show (String.ofList (line.toList.take (line.toList.length - count))).toList = _
  have hkept : front.length + back.length - count = front.length + (back.length - count) := by
    omega
  rw [String.toList_ofList, hline, List.length_append, hkept, List.take_length_add_append]

/-- The replaced part begins between two characters, whatever the count is: an editor works with
byte offsets, and one inside of a character would break the line. -/
theorem splitAtByte?_replaceStart (line : String) (count : Nat) :
    Text.splitAtByte? (replaceStart line count) line.toList =
      some ((splitEnd line count).1.toList, (splitEnd line count).2.toList) := by
  have hsplit := Text.splitAtByte?_append (splitEnd line count).1.toList
    (splitEnd line count).2.toList
  rwa [← toList_splitEnd_append] at hsplit

theorem replaceStart_eq (hline : line.toList = front ++ back) (hcount : count ≤ back.length) :
    replaceStart line count =
      Text.byteLength front + Text.byteLength (back.take (back.length - count)) := by
  unfold replaceStart
  rw [toList_splitEnd hline hcount, Text.byteLength_append]

end Editor

/-! ## Where a word begins -/

namespace Shell

variable {shell : Shell} {offset : Nat} {draft : Option Draft} {line : String}
variable {cs front back : List Char} {words : List Word} {last : Draft}

/-- A word in progress was in progress from the beginning, or it began where nothing was. Before
that place the reader has ended the same words, and it kept nothing else. -/
theorem exists_start_of_readFrom (h : shell.readFrom offset draft cs = (words, some last)) :
    (words = [] ∧ ∃ d, draft = some d ∧ last.start = d.start) ∨
      ∃ front back, cs = front ++ back ∧ shell.readFrom offset draft front = (words, none) ∧
        last.start = offset + Text.byteLength front := by
  -- Over the characters, for every draft: the draft is what the front leaves behind.
  induction cs generalizing offset draft words with
  | nil =>
    cases h
    exact .inl ⟨rfl, last, rfl, rfl⟩
  | cons c cs ih =>
    rw [readFrom_cons, Prod.mk.injEq] at h
    obtain ⟨hwords, hlast⟩ := h
    rcases ih (Prod.ext rfl hlast) with ⟨hnone, d, hadvance, hstart⟩ |
      ⟨front, back, hsplit, hfront, hstart⟩
    · -- The word was in progress after the first character: it went on with it, or
      -- began with it if nothing was in progress.
      rw [show (shell.readFrom _ _ cs).fst = [] from hnone, List.append_nil] at hwords
      rw [advance_snd] at hadvance
      have hbegan := Draft.start_of_absorb? hadvance
      cases draft with
      | none =>
        refine .inr ⟨[], c :: cs, rfl, ?_, ?_⟩
        · rw [readFrom_nil, ← hwords]
          rfl
        · rw [hstart, hbegan]
          rfl
      | some first =>
        have habsorb : first.absorb? shell c = some d := hadvance
        have hended : (shell.advance offset (some first) c).1 = [] := by
          rw [advance_of_absorb? habsorb]
        exact .inl ⟨by rw [← hwords, hended], first, rfl, by rw [hstart, hbegan]; rfl⟩
    · -- It began later, so the first character is in front of it.
      refine .inr ⟨c :: front, back, by rw [hsplit, List.cons_append], ?_, ?_⟩
      · rw [readFrom_cons, hfront, hwords]
      · rw [hstart, Text.byteLength_cons, Nat.add_assoc]

/-! ## Plain words -/

/-- **A plain word put between words** is read as one more word, and the words before it stay as
they are. It needs no quotes to be read as itself (`Quoting.bare`), and the blank behind it ends it.
-/
theorem words_insert {value : String} (hread : shell.readFrom 0 none front = (words, none))
    (hne : value ≠ "") (hplain : shell.isPlain value = true) :
    ∃ word, shell.words (String.ofList front ++ value ++ " ") = words ++ [word] ∧
      word.complete = true ∧ word.text = value := by
  have hserves : Quoting.bare.serves shell value = true := by
    simp [Quoting.serves, hne, hplain]
  have hraw : shell.ReadsAs (Text.byteLength front) value.toList
      { start := Text.byteLength front, text := value } := readsAs_write _ hserves
  have hblank : ∀ c ∈ [' '], Text.isBlank c = true := by
    intro c hc
    rw [List.mem_singleton.mp hc]
    decide
  have hnothing : [' '] = [] → ([] : List Char) = [] := fun _ => rfl
  have hword := wordsFrom_raw hraw rfl rfl hblank hnothing
  have hback : (value ++ " ").toList = value.toList ++ [' '] ++ [] := by simp
  rw [String.append_assoc, words_eq_readFrom, String.toList_ofList, hread, hback, hword]
  exact ⟨_, rfl, rfl, rfl⟩

/-! ## The word being typed -/

/-- Byte offset at which the word being typed begins: the end of the line if none
was begun. -/
def wordStart (shell : Shell) (line : String) : Nat :=
  match (shell.words line).getLast? with
  | some last => if last.complete then Text.byteLength line.toList else last.span.start
  | none => Text.byteLength line.toList

end Shell

/-- A word that was not begun takes no room. -/
theorem Word.rawLength_emptyAt (line : String) :
    (Word.emptyAt (Text.byteLength line.toList)).rawLength line = 0 := by
  have hslice := Text.slice?_append line.toList []
  rw [List.append_nil] at hslice
  unfold Word.rawLength
  dsimp only [Word.emptyAt]
  rw [hslice]
  rfl

namespace TypedLine

variable {shell : Shell} {line : String} {typed : TypedLine}

/-- A line taken apart where the word being typed begins: what is in front is read by itself and
leaves nothing open, what is behind is the raw word. Everything that is said about a replacement is
said about these two stretches. -/
structure Parts (shell : Shell) (line : String) (typed : TypedLine) (front back : List Char) :
    Prop where
  line_eq : line.toList = front ++ back
  /-- The words before are read without the word being typed. -/
  earlier : shell.readFrom 0 none front = (typed.earlier, none)
  complete : typed.earlier = (shell.words line).filter fun word => word.complete
  start : shell.wordStart line = Text.byteLength front
  rawLength : typed.current.rawLength line = back.length
  /-- Quotes and escapes take room of their own. -/
  length_text_le : typed.current.text.length ≤ back.length

theorem exists_parts (h : TypedLine.ofLine? shell line = some typed) :
    ∃ front back, Parts shell line typed front back := by
  have hended : ∀ word ∈ (shell.readFrom 0 none line.toList).1, word.complete = true :=
    fun word hmem => Shell.complete_of_mem_readFrom hmem
  rcases ofLine?_cases h with ⟨words, hread, hwords, rfl⟩ | ⟨words, last, hread, hwords, rfl⟩
  · rw [hread] at hended
    refine ⟨line.toList, [], (List.append_nil _).symm, hread, ?_, ?_, ?_, Nat.le_refl _⟩
    · rw [hwords, List.filter_eq_self.mpr hended]
    · unfold Shell.wordStart
      rw [hwords]
      split
      · rename_i last hlast
        rw [if_pos (hended last (List.mem_of_getLast? hlast))]
      · rfl
    · exact Word.rawLength_emptyAt line
  · rw [hread] at hended
    rcases Shell.exists_start_of_readFrom hread with ⟨-, d, hnone, -⟩ |
      ⟨front, back, hline, hfront, hstart⟩
    -- At the beginning of a line nothing is in progress.
    · cases hnone
    · rw [Nat.zero_add] at hstart
      -- No word ends in the raw word, since those in front are all that do.
      have hback : shell.readFrom (Text.byteLength front) none back = ([], some last) := by
        rw [hline, Shell.readFrom_append, hfront, Nat.zero_add, Prod.mk.injEq] at hread
        exact Prod.ext (List.append_right_eq_self.mp hread.1) hread.2
      refine ⟨front, back, hline, hfront, ?_, ?_, ?_, ?_⟩
      · rw [hwords, List.filter_append, List.filter_eq_self.mpr hended]
        exact (List.append_nil _).symm
      · unfold Shell.wordStart
        rw [hwords, List.getLast?_concat]
        exact hstart
      · have hslice := Text.slice?_append front back
        rw [← hline, ← hstart] at hslice
        unfold Word.rawLength
        dsimp only [Draft.close]
        rw [hslice]
      · have hlength := Shell.length_text_le hback
        have hnone : (Shell.draftAt (Text.byteLength front) none).text.toList.length = 0 := rfl
        rw [hnone, Nat.zero_add] at hlength
        exact hlength

end TypedLine

/-! ## What a candidate replaces -/

/-- The last segment of a path is no longer than the word. -/
theorem Shell.length_baseName_le (shell : Shell) (text : String) :
    (shell.baseName text).length ≤ text.length := by
  have htext := shell.directoryPart_append_baseName text
  have hlength := congrArg String.length htext
  rw [String.length_append] at hlength
  omega

/-- What a candidate replaces begins between two characters, and not before the
word being typed. -/
structure ReplacesWithin (shell : Shell) (line : String) (count : Nat) : Prop where
  boundary : Text.splitAtByte? (replaceStart line count) line.toList =
    some ((splitEnd line count).1.toList, (splitEnd line count).2.toList)
  wordStart_le : shell.wordStart line ≤ replaceStart line count

/-- A candidate replaces the word being typed, and a plain text put there is read as one more word
after the complete ones. Plain texts are those without anything that the shell reads as something
else. -/
structure ReplacesWord (shell : Shell) (line : String) (count : Nat) : Prop where
  start : replaceStart line count = shell.wordStart line
  insert : ∀ value : String, value ≠ "" → shell.isPlain value = true →
    ∃ word, shell.words ((splitEnd line count).1 ++ value ++ " ") =
        (shell.words line).filter (fun word => word.complete) ++ [word] ∧
      word.complete = true ∧ word.text = value

namespace TypedLine.Parts

variable {shell : Shell} {line : String} {typed : TypedLine} {front back : List Char}
variable {count : Nat}

/-- No more characters than the raw word has begin within it. -/
theorem replacesWithin (h : Parts shell line typed front back)
    (hcount : count ≤ typed.current.rawLength line) : ReplacesWithin shell line count := by
  rw [h.rawLength] at hcount
  refine ⟨Editor.splitAtByte?_replaceStart line count, ?_⟩
  rw [h.start, Editor.replaceStart_eq h.line_eq hcount]
  exact Nat.le_add_right _ _

/-- As many characters as the raw word has are the word. -/
theorem replacesWord (h : Parts shell line typed front back) :
    ReplacesWord shell line (typed.current.rawLength line) := by
  have hnone : back.take (back.length - back.length) = [] := by
    rw [Nat.sub_self, List.take_zero]
  rw [h.rawLength]
  -- Nothing of the raw word is kept, so what is kept is the front, where nothing is open.
  constructor
  · rw [h.start, Editor.replaceStart_eq h.line_eq (Nat.le_refl _), hnone]
    rfl
  · intro value hne hplain
    have hfront : (splitEnd line back.length).1 = String.ofList front := by
      apply String.toList_injective
      rw [Editor.toList_splitEnd h.line_eq (Nat.le_refl _), hnone, List.append_nil,
        String.toList_ofList]
    rw [hfront, ← h.complete]
    exact Shell.words_insert h.earlier hne hplain

end TypedLine.Parts

namespace Engine

variable {σ : Type} {engine : Engine σ} {home : Option String} {shell : Shell}
variable {cwd line : String} {typed : TypedLine} {memory after : Memory σ} {result : Suggestions}

/-- The word being typed reads as a path. Words of a command without a grammar are
not looked at for this. -/
def typesPath (engine : Engine σ) (home : Option String) (shell : Shell) (cwd : String)
    (memory : Memory σ) (typed : TypedLine) : Bool :=
  let (root?, loaded) := (engine.command? typed).run memory
  root?.isSome && (engine.readingIn home shell cwd loaded typed.current.text).isPath

/-- How many characters suggestions replace, with a grammar or without (specification, § 4.4, last
paragraph): the raw word, or, of a path, the last segment. -/
theorem charactersToDrop_eq (htyped : TypedLine.ofLine? shell line = some typed)
    (h : (engine.suggest home shell cwd line).run memory = (.ok (some result), after)) :
    result.charactersToDrop =
      if engine.typesPath home shell cwd memory typed then
        (shell.baseName typed.current.text).length
      else typed.current.rawLength line := by
  obtain ⟨context, dropped, walked, hplace, hdropped⟩ := exists_place_of_suggest htyped h
  rw [hdropped]
  rw [locate_eq] at hplace
  obtain ⟨root?, loaded, hroot, hplace⟩ := Recall.exists_of_run_bind hplace
  unfold typesPath
  rw [hroot]
  cases root? with
  | none =>
    -- The raw word is counted whatever it looks like.
    obtain ⟨found, there, hfound, hplace⟩ := Recall.exists_of_run_bind hplace
    cases found <;> cases hplace
    rfl
  | some root =>
    obtain ⟨host', seen', hhost', hplace⟩ := Recall.exists_of_run_bind hplace
    cases hhost'
    obtain ⟨found, there, hfound, hplace⟩ := Recall.exists_of_run_bind hplace
    cases found <;> cases hplace
    dsimp only [Option.isSome_some, Bool.true_and]
    split
    · rename_i hpath
      exact PathReading.charactersToDrop_of_isPath hpath
    · rename_i hpath
      exact if_neg hpath

/-- **Suggestions leave the words before the one being typed as they are** (specification, § 4.4,
`charactersToDrop`). What they replace lies within that word. It is the whole word unless the word
reads as a path, and then a plain text accepted in its place is read as one more word. The count is
known by `charactersToDrop_eq`; the rest is about the two stretches of the line. -/
theorem suggest_keepsWords
    (h : (engine.suggest home shell cwd line).run memory = (.ok (some result), after)) :
    ∃ typed, TypedLine.ofLine? shell line = some typed ∧
      ReplacesWithin shell line result.charactersToDrop ∧
      (engine.typesPath home shell cwd memory typed = false →
        ReplacesWord shell line result.charactersToDrop) := by
  cases htyped : TypedLine.ofLine? shell line with
  | none =>
    unfold suggest at h
    rw [htyped] at h
    cases h
  | some typed =>
    obtain ⟨front, back, hparts⟩ := TypedLine.exists_parts htyped
    have hdropped := charactersToDrop_eq htyped h
    refine ⟨typed, rfl, ?_, ?_⟩
    · refine hparts.replacesWithin ?_
      rw [hdropped]
      split
      · -- The text is counted here, and the raw word has room for it.
        have hbase := shell.length_baseName_le typed.current.text
        have htext := hparts.length_text_le
        rw [hparts.rawLength]
        exact Nat.le_trans hbase htext
      · exact Nat.le_refl _
    · intro hpath
      rw [hpath] at hdropped
      rw [hdropped]
      exact hparts.replacesWord

/-- A word with an open quote, after two blanks. -/
theorem suggest_keepsWords_quoted : ∃ result after,
    (folderEngine.suggest none .bash "/w" "cd  'sr").run spacedMemory =
      (.ok (some result), after) ∧
    ReplacesWord .bash "cd  'sr" result.charactersToDrop ∧
    replaceStart "cd  'sr" result.charactersToDrop = 4 := by
  obtain ⟨result, after, hsuggest, hcount⟩ :=
    exists_of_dropped? (by decide +kernel : dropped? "cd  'sr" = some 3)
  obtain ⟨typed, htyped, -, hword⟩ := suggest_keepsWords hsuggest
  have hpath : (TypedLine.ofLine? .bash "cd  'sr").map
      (folderEngine.typesPath none .bash "/w" spacedMemory) = some false := by
    decide +kernel
  rw [htyped] at hpath
  refine ⟨result, after, hsuggest, hword (Option.some.inj hpath), ?_⟩
  rw [hcount]
  decide +kernel

end Engine

end CommandCompletion
