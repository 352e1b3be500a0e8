/-
How the words of a line cover it.

`Shell.Scans` says what it is to read a line word by word: blanks between words are
passed over; a raw word is read until a blank ends it, and that word is complete; or
the line ends first, and the last word is in progress. The program reads every line
like that (`scans_words`), whatever quotes and escapes are open on the way.

All that is said about spans follows by induction on such a reading. Each span holds
a raw word that does not begin with a blank, the spans are in order and there is a
blank between any two of them, and what lies outside all spans is blank
(`Shell.words_tile`).
-/
import CommandCompletion.Proofs.Splitting

set_option autoImplicit false

namespace CommandCompletion

/-! ## Quoted parts -/

namespace Draft

variable {shell : Shell} {draft next : Draft} {c : Char}

/-- The character opens a quoted part here: it is a quote of the shell, is not escaped, and stands
in no quoted part. -/
def opensQuote (shell : Shell) (draft : Draft) (c : Char) : Bool :=
  !draft.escaped && draft.quote.isNone && shell.isQuote c

/-- A word is quoted from the first character on that opens a quoted part, and stays so. -/
theorem quoted_of_absorb? (h : draft.absorb? shell c = some next) :
    next.quoted = (draft.quoted || draft.opensQuote shell c) := by
  unfold absorb? at h
  unfold opensQuote
  by_cases hescaped : draft.escaped = true
  · rw [if_pos hescaped] at h
    cases h
    simp [hescaped]
  · rw [if_neg hescaped] at h
    -- Within a quoted part nothing opens another one.
    cases hquote : draft.quote with
    | some quote =>
      rw [hquote] at h
      dsimp only at h
      split at h
      · cases h
        simp
      · split at h <;> (cases h; simp)
    | none =>
      rw [hquote] at h
      dsimp only at h
      split at h
      · cases h
      · split at h
        · rename_i hopens
          cases h
          simp [hescaped, hopens]
        · rename_i hplain
          split at h <;> (cases h; simp [hplain])

end Draft

namespace Shell

variable {shell : Shell} {offset : Nat} {cs front back raw : List Char} {c : Char}
variable {draft last : Draft} {word : Word} {words : List Word} {line : String}

/-- Some part of the raw word that begins at byte offset `offset` is quoted: one of
its characters, with what is read before it, opens a quote. -/
def HasQuotedPart (shell : Shell) (offset : Nat) (raw : List Char) : Prop :=
  ∃ front c back draft, raw = front ++ c :: back ∧
    shell.readFrom offset (some { start := offset }) front = ([], some draft) ∧
    draft.opensQuote shell c = true

/-- A draft that was read on is quoted if it was, or if a quote was opened since. By induction on
the characters: the first is the one, or it is among the rest. -/
theorem quoted_of_readFrom (h : shell.readFrom offset (some draft) cs = ([], some last)) :
    last.quoted = true ↔ draft.quoted = true ∨
      ∃ front c back before, cs = front ++ c :: back ∧
        shell.readFrom offset (some draft) front = ([], some before) ∧
        before.opensQuote shell c = true := by
  induction cs generalizing offset draft with
  | nil =>
    cases h
    simp
  | cons c cs ih =>
    obtain ⟨next, habsorb, h⟩ := readFrom_cons_within.mp h
    rw [ih h, Draft.quoted_of_absorb? habsorb, Bool.or_eq_true, or_assoc]
    refine or_congr_right ?_
    constructor
    · rintro (hopens | ⟨front, c', back, before, rfl, hfront, hopens⟩)
      · exact ⟨[], c, cs, draft, rfl, rfl, hopens⟩
      · exact ⟨c :: front, c', back, before, rfl,
          readFrom_cons_within.mpr ⟨next, habsorb, hfront⟩, hopens⟩
    · rintro ⟨front, c', back, before, hsplit, hfront, hopens⟩
      cases front with
      | nil =>
        cases hsplit
        cases hfront
        exact .inl hopens
      | cons _ front =>
        cases hsplit
        obtain ⟨next', habsorb', hfront⟩ := readFrom_cons_within.mp hfront
        rw [habsorb] at habsorb'
        cases habsorb'
        exact .inr ⟨front, c', back, before, rfl, hfront, hopens⟩

/-! ## Raw words -/

/-- Read as a word that begins at byte offset `offset`, `raw` is not ended and leaves `draft`. It is
what a word in progress has behind it. -/
structure ReadsAs (shell : Shell) (offset : Nat) (raw : List Char) (draft : Draft) : Prop where
  nonempty : raw ≠ []
  read : shell.readFrom offset (some { start := offset }) raw = ([], some draft)

/-- A character that ends no word begins one, so it is no blank. -/
theorem readsAs_singleton (h : ({ start := offset } : Draft).absorb? shell c = some draft) :
    shell.ReadsAs offset [c] draft :=
  ⟨List.cons_ne_nil _ _, readFrom_cons_within.mpr ⟨draft, h, rfl⟩⟩

namespace ReadsAs

/-- A raw word can be read on, by a character that does not end it. -/
theorem concat (h : shell.ReadsAs offset raw draft) {next : Draft}
    (habsorb : draft.absorb? shell c = some next) : shell.ReadsAs offset (raw ++ [c]) next where
  nonempty := List.append_ne_nil_of_left_ne_nil h.nonempty _
  read := by
    rw [readFrom_append, h.read]
    dsimp only
    rw [readFrom_cons_within.mpr ⟨next, habsorb, rfl⟩]
    rfl

/-- The draft keeps where its word began. -/
theorem start_eq (h : shell.ReadsAs offset raw draft) : draft.start = offset :=
  start_of_readFrom h.read

/-- No word begins with a blank, since nothing is quoted or escaped yet at its first character. -/
theorem exists_first (h : shell.ReadsAs offset raw draft) :
    ∃ first rest, raw = first :: rest ∧ Text.isBlank first = false := by
  cases raw with
  | nil => exact absurd rfl h.nonempty
  | cons first rest =>
    obtain ⟨next, habsorb, -⟩ := readFrom_cons_within.mp h.read
    refine ⟨first, rest, rfl, Bool.eq_false_iff.mpr fun hblank => ?_⟩
    -- Outside quotes a blank would have ended the word.
    simp [Draft.absorb?, hblank] at habsorb

/-- The text is no longer than the raw word: each character adds one or is dropped. -/
theorem length_text_le (h : shell.ReadsAs offset raw draft) : draft.text.length ≤ raw.length := by
  obtain ⟨added, hadded, hlength, -⟩ := readFrom_within h.read
  have hnone : ({ start := offset } : Draft).text.toList = [] := rfl
  rw [hnone, List.nil_append] at hadded
  rw [← String.length_toList, hadded]
  exact hlength

/-- The span of a word holds all characters of the raw word, as their offsets are in bytes and each
has at least one. -/
theorem span_covers (h : shell.ReadsAs offset raw draft) (hsplit : raw = front ++ c :: back)
    (complete : Bool) :
    (draft.close (offset + Text.byteLength raw) complete).span.start ≤
        offset + Text.byteLength front ∧
      offset + Text.byteLength front <
        (draft.close (offset + Text.byteLength raw) complete).span.stop := by
  constructor
  · show draft.start ≤ _
    rw [h.start_eq]
    exact Nat.le_add_right _ _
  · show _ < offset + Text.byteLength raw
    have hpos := Text.byteLength_pos (List.cons_ne_nil c back)
    rw [hsplit, Text.byteLength_append]
    omega

/-- The word is quoted if one of its characters opens a quoted part, as a new draft is not quoted.
-/
theorem quoted_iff (h : shell.ReadsAs offset raw draft) :
    draft.quoted = true ↔ shell.HasQuotedPart offset raw := by
  rw [quoted_of_readFrom h.read]
  simp [HasQuotedPart]

end ReadsAs

/-! ## Reading word by word -/

/-- Read from byte offset `offset` on, where no word is in progress, `cs` is the rest of a line with
these words. There is one case for each thing that may come next. -/
inductive Scans (shell : Shell) : Nat → List Char → List Word → Prop where
  | done (offset : Nat) : Scans shell offset [] []
  | blank {offset : Nat} {c : Char} {cs : List Char} {words : List Word}
      (hblank : Text.isBlank c = true) (hrest : Scans shell (offset + c.utf8Size) cs words) :
      Scans shell offset (c :: cs) words
  /-- The line ends before the word does. -/
  | last {offset : Nat} {raw : List Char} {draft : Draft} (hraw : shell.ReadsAs offset raw draft) :
      Scans shell offset raw [draft.close (offset + Text.byteLength raw) false]
  /-- The character `c` ends the word. -/
  | word {offset : Nat} {raw : List Char} {draft : Draft} {c : Char} {cs : List Char}
      {words : List Word} (hraw : shell.ReadsAs offset raw draft)
      (hends : draft.absorb? shell c = none)
      (hrest : Scans shell (offset + Text.byteLength raw + c.utf8Size) cs words) :
      Scans shell offset (raw ++ c :: cs)
        (draft.close (offset + Text.byteLength raw) true :: words)

/-- **Every rest of a line is read word by word**, from between two words or from within one. The
two go together in the induction on the characters: a character begins a word, goes on with it or
ends it. -/
theorem scans_wordsFrom (cs : List Char) :
    (∀ offset, shell.Scans offset cs (shell.wordsFrom offset none cs)) ∧
      ∀ offset raw draft, shell.ReadsAs offset raw draft →
        shell.Scans offset (raw ++ cs)
          (shell.wordsFrom (offset + Text.byteLength raw) (some draft) cs) := by
  induction cs with
  | nil =>
    refine ⟨fun offset => .done offset, fun offset raw draft hraw => ?_⟩
    rw [List.append_nil]
    exact .last hraw
  | cons c cs ih =>
    obtain ⟨between, within⟩ := ih
    constructor
    · intro offset
      show shell.Scans offset (c :: cs)
        (shell.wordsFrom (offset + c.utf8Size) (({ start := offset } : Draft).absorb? shell c) cs)
      cases hfirst : ({ start := offset } : Draft).absorb? shell c with
      | none => exact .blank (Draft.isBlank_of_absorb? hfirst).2.2 (between _)
      | some draft => exact within offset [c] draft (readsAs_singleton hfirst)
    · intro offset raw draft hraw
      rw [wordsFrom_cons]
      unfold advance
      dsimp only
      -- The character ends the word that was read so far, or the word has one more.
      cases hnext : draft.absorb? shell c with
      | none => exact .word hraw hnext (between _)
      | some next =>
        have hlonger := within offset (raw ++ [c]) next (hraw.concat hnext)
        rw [Text.byteLength_append, ← Nat.add_assoc, ← List.append_cons] at hlonger
        exact hlonger

/-- **Every line is read word by word.** -/
theorem scans_words (shell : Shell) (line : String) :
    shell.Scans 0 line.toList (shell.words line) :=
  (scans_wordsFrom line.toList).1 0

namespace Scans

/-- Each word is what some stretch reads as, and it is complete unless the rest of the line ends
with that stretch. By induction on the reading, which only adds to what stands in front. -/
theorem exists_raw (h : shell.Scans offset cs words) (hmem : word ∈ words) :
    ∃ before raw after draft, cs = before ++ (raw ++ after) ∧
      shell.ReadsAs (offset + Text.byteLength before) raw draft ∧
      word = draft.close (offset + Text.byteLength before + Text.byteLength raw)
        (!after.isEmpty) := by
  induction h with
  | done => cases hmem
  | @blank offset c cs words _ _ ih =>
    obtain ⟨before, raw, after, draft, rfl, hraw, hword⟩ := ih hmem
    rw [Nat.add_assoc offset, ← Text.byteLength_cons] at hraw hword
    exact ⟨c :: before, raw, after, draft, rfl, hraw, hword⟩
  | @last offset raw draft hraw =>
    exact ⟨[], raw, [], draft, (List.append_nil raw).symm, hraw, List.mem_singleton.mp hmem⟩
  | @word offset raw draft c cs words hraw _ _ ih =>
    rcases List.mem_cons.mp hmem with hfirst | hlater
    · exact ⟨[], raw, c :: cs, draft, rfl, hraw, hfirst⟩
    · obtain ⟨before, raw', after, draft', rfl, hraw', hword⟩ := ih hlater
      have hoffset : offset + Text.byteLength raw + c.utf8Size + Text.byteLength before =
          offset + Text.byteLength (raw ++ c :: before) := by
        rw [Text.byteLength_append, Text.byteLength_cons]
        omega
      rw [hoffset] at hraw' hword
      exact ⟨raw ++ c :: before, raw', after, draft', by simp, hraw', hword⟩

/-- A blank stands directly behind each word and before any later one: it is the character that
ended the word. The induction carries what stands in front of the rest, since spans are counted from
the beginning of the line. -/
theorem pairwise_apart (h : shell.Scans offset cs words) (front : List Char)
    (hoffset : Text.byteLength front = offset) :
    words.Pairwise fun earlier later => earlier.span.stop < later.span.start ∧
      ∃ blank gap, Text.slice? earlier.span.stop later.span.start (front ++ cs) =
        some (blank :: gap) ∧ Text.isBlank blank = true := by
  induction h generalizing front with
  | done => exact .nil
  | @blank offset c cs words _ _ ih =>
    have hrest := ih (front ++ [c]) (by
      rw [Text.byteLength_append, hoffset]
      rfl)
    rw [← List.append_cons] at hrest
    exact hrest
  | last => exact List.pairwise_singleton _ _
  | @word offset raw draft c cs words hraw hends hwords ih =>
    have hstop : Text.byteLength (front ++ raw) = offset + Text.byteLength raw := by
      rw [Text.byteLength_append, hoffset]
    refine List.pairwise_cons.mpr ⟨fun later hlater => ?_, ?_⟩
    · obtain ⟨before, raw', after, draft', rfl, hraw', rfl⟩ := hwords.exists_raw hlater
      refine ⟨?_, c, before, ?_, (Draft.isBlank_of_absorb? hends).2.2⟩
      · have hsize : 0 < c.utf8Size := Char.utf8Size_pos c
        show offset + Text.byteLength raw < draft'.start
        rw [hraw'.start_eq]
        omega
      · have hslice := Text.slice?_middle (front ++ raw) (c :: before) (raw' ++ after)
        rw [hstop, Text.byteLength_cons, ← Nat.add_assoc] at hslice
        show Text.slice? (offset + Text.byteLength raw) draft'.start _ = _
        rw [hraw'.start_eq, ← hslice]
        simp
    · have hrest := ih (front ++ raw ++ [c]) (by
        rw [Text.byteLength_append, hstop]
        rfl)
      rw [← List.append_cons, List.append_assoc] at hrest
      exact hrest

/-- What no word covers is blank: it was passed over between two words, or it ended one. -/
theorem isBlank_of_uncovered (h : shell.Scans offset cs words) (hsplit : cs = front ++ c :: back)
    (huncovered : ∀ word ∈ words, ¬ (word.span.start ≤ offset + Text.byteLength front ∧
      offset + Text.byteLength front < word.span.stop)) : Text.isBlank c = true := by
  induction h generalizing front with
  | done => simp at hsplit
  | @blank offset d cs words hblank _ ih =>
    cases front with
    | nil =>
      cases hsplit
      exact hblank
    | cons _ front =>
      cases hsplit
      refine ih rfl fun word hword => ?_
      have houtside := huncovered word hword
      rw [Text.byteLength_cons, ← Nat.add_assoc] at houtside
      exact houtside
  | last hraw =>
    exact absurd (hraw.span_covers hsplit false) (huncovered _ (List.mem_singleton_self _))
  | @word offset raw draft d cs words hraw hends _ ih =>
    rcases List.append_eq_append_iff.mp hsplit with ⟨more, rfl, hmore⟩ | ⟨more, hmore, hrest⟩
    · cases more with
      | nil =>
        -- The character that ends the word.
        cases hmore
        exact (Draft.isBlank_of_absorb? hends).2.2
      | cons _ more =>
        cases hmore
        refine ih rfl fun word hword => ?_
        have houtside := huncovered word (List.mem_cons_of_mem _ hword)
        rw [Text.byteLength_append, Text.byteLength_cons, ← Nat.add_assoc, ← Nat.add_assoc]
          at houtside
        exact houtside
    · cases more with
      | nil =>
        cases hrest
        exact (Draft.isBlank_of_absorb? hends).2.2
      | cons _ more =>
        cases hrest
        exact absurd (hraw.span_covers hmore true) (huncovered _ List.mem_cons_self)

end Scans

/-! ## The words of a line -/

/-- What is true of a word of a line whose raw form is `raw` (specification, § 3, § E2.5): where it
stands, how its text and its flags come of it, and when it is in progress. -/
structure Covers (shell : Shell) (line : String) (word : Word) (raw : List Char) : Prop where
  /-- The span begins and ends between two characters, and `raw` is what it holds. -/
  slice : Text.slice? word.span.start word.span.stop line.toList = some raw
  nonempty : word.span.start < word.span.stop
  first : ∃ first rest, raw = first :: rest ∧ Text.isBlank first = false
  length_text_le : word.text.length ≤ raw.length
  rawLength_eq : word.rawLength line = raw.length
  /-- The word is in progress exactly if the line ends with it, so only the last word of
  a line can be. -/
  inProgress_iff : word.complete = false ↔ word.span.stop = Text.byteLength line.toList
  isQuoted_iff : word.isQuoted = true ↔ shell.HasQuotedPart word.span.start raw
  isOption_iff : word.isOption = true ↔ ¬ shell.HasQuotedPart word.span.start raw ∧
    word.text.toList.head? = some '-' ∧ 1 < Text.byteLength word.text.toList

/-- How words cover a line: each covers a stretch of its own, and between and around the stretches
there are blanks only. -/
structure Tiles (shell : Shell) (line : String) (words : List Word) : Prop where
  covers : ∀ word ∈ words, ∃ raw, shell.Covers line word raw
  /-- From the end of a word to the beginning of any later one there is a blank. -/
  apart : words.Pairwise fun earlier later => earlier.span.stop < later.span.start ∧
    ∃ blank gap, Text.slice? earlier.span.stop later.span.start line.toList =
      some (blank :: gap) ∧ Text.isBlank blank = true
  /-- A character that is in no span is blank. -/
  outside : ∀ front c back, line.toList = front ++ c :: back →
    (∀ word ∈ words, ¬ (word.span.start ≤ Text.byteLength front ∧
      Text.byteLength front < word.span.stop)) → Text.isBlank c = true
  /-- All words but the last one are complete, also if that one is not. -/
  complete : ∀ word ∈ words.dropLast, word.complete = true

/-- Each word of a line covers its stretch. The stretch is cut out of the line by what stands before
it and after it. -/
theorem Scans.covers (h : shell.Scans 0 line.toList words) (hmem : word ∈ words) :
    ∃ raw, shell.Covers line word raw := by
  obtain ⟨before, raw, after, draft, hline, hraw, rfl⟩ := h.exists_raw hmem
  rw [Nat.zero_add] at hraw
  rw [Nat.zero_add]
  have hstart : draft.start = Text.byteLength before := hraw.start_eq
  have hslice : Text.slice? draft.start (Text.byteLength before + Text.byteLength raw)
      line.toList = some raw := by
    rw [hstart, hline]
    exact Text.slice?_middle before raw after
  have hpos := Text.byteLength_pos hraw.nonempty
  have hquoted : draft.quoted = true ↔ shell.HasQuotedPart draft.start raw := by
    rw [hstart]
    exact hraw.quoted_iff
  -- What is left is that the span is not empty, its length, and the two flags.
  refine ⟨raw, {
    slice := hslice
    nonempty := ?_
    first := hraw.exists_first
    length_text_le := hraw.length_text_le
    rawLength_eq := ?_
    inProgress_iff := ?_
    isQuoted_iff := hquoted
    isOption_iff := ?_ }⟩
  · show draft.start < Text.byteLength before + Text.byteLength raw
    omega
  · unfold Word.rawLength Draft.close
    dsimp only
    rw [hslice]
  · show (!after.isEmpty) = false ↔
      Text.byteLength before + Text.byteLength raw = Text.byteLength line.toList
    rw [hline, Text.byteLength_append, Text.byteLength_append]
    cases after with
    | nil => simp
    | cons c after =>
      have hmore := Text.byteLength_pos (List.cons_ne_nil c after)
      simp only [List.isEmpty_cons, Bool.not_false, Bool.true_eq_false, false_iff]
      omega
  · show (!draft.quoted && Word.looksLikeOption draft.text) = true ↔
      ¬ shell.HasQuotedPart draft.start raw ∧ draft.text.toList.head? = some '-' ∧
        1 < Text.byteLength draft.text.toList
    rw [← hquoted]
    simp [Word.looksLikeOption, and_comm]

/-- All words but the last one have ended, so they are complete. -/
theorem complete_of_mem_dropLast (h : word ∈ (shell.words line).dropLast) :
    word.complete = true := by
  have hended : word ∈ (shell.readFrom 0 none line.toList).1 := by
    rcases shell.readFrom_line_cases line with ⟨ended, hread⟩ | ⟨ended, last, hread⟩
    · rw [words_of_readFrom_none hread] at h
      rw [hread]
      exact (List.dropLast_sublist _).subset h
    · rw [words_of_readFrom_some hread, List.dropLast_concat] at h
      rw [hread]
      exact h
  exact complete_of_mem_readFrom hended

/-- **The words of a line cover all of it that is not blank** (specification, § E2.5), whatever the
line and the shell are: open quotes, trailing escapes and empty quoted words included. Each part
follows from `scans_words` by induction on the reading. -/
theorem words_tile (shell : Shell) (line : String) : shell.Tiles line (shell.words line) where
  covers word hmem := (shell.scans_words line).covers hmem
  apart := (shell.scans_words line).pairwise_apart [] rfl
  outside front c back hsplit huncovered :=
    (shell.scans_words line).isBlank_of_uncovered hsplit (by simpa using huncovered)
  complete word hmem := complete_of_mem_dropLast hmem

end Shell

end CommandCompletion
