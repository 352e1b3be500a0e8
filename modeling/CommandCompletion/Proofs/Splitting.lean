/-
Reading a line in stretches.

`Shell.wordsFrom` closes the word in progress where the line ends, so it cannot
be cut in two. `Shell.readFrom` leaves the word open: it answers the words that
were ended and the draft of the one in progress. It can be cut anywhere
(`readFrom_append`), and closing what it leaves gives the words of a line
(`wordsFrom_eq`).

Inside a word each character either stands for itself, and the text grows by it,
or it is a quote or an escape, and the text stays (`text_of_absorb?`). So the
text is as long as the raw word exactly if every character is literal
(`readFrom_within`).
-/
import CommandCompletion.Word.Splitting

set_option autoImplicit false

namespace CommandCompletion

namespace Text

@[simp] theorem byteLength_nil : byteLength [] = 0 := rfl

theorem byteLength_cons (c : Char) (cs : List Char) :
    byteLength (c :: cs) = c.utf8Size + byteLength cs := rfl

theorem byteLength_append (front back : List Char) :
    byteLength (front ++ back) = byteLength front + byteLength back := by
  induction front with
  | nil => rw [List.nil_append, byteLength_nil, Nat.zero_add]
  | cons c front ih =>
    rw [List.cons_append, byteLength_cons, byteLength_cons, ih, Nat.add_assoc]

/-- Every character takes room. -/
theorem byteLength_pos {cs : List Char} (hne : cs ≠ []) : 0 < byteLength cs := by
  cases cs with
  | nil => exact absurd rfl hne
  | cons c cs =>
    rw [byteLength_cons]
    exact Nat.add_pos_left (Char.utf8Size_pos c) _

/-- The bytes of some characters in front end between two characters. Cuts are made by byte offsets,
and fail in the middle of a character; that they do not fail is always shown through this lemma. -/
theorem splitAtByte?_append (front back : List Char) :
    splitAtByte? (byteLength front) (front ++ back) = some (front, back) := by
  induction front with
  | nil => rw [byteLength_nil, List.nil_append, splitAtByte?]
  | cons c front ih =>
    -- A character takes at least one byte, so there are bytes to go and `c` is passed.
    have hsize : 0 < c.utf8Size := Char.utf8Size_pos c
    have hsucc : byteLength (c :: front) = (c.utf8Size + byteLength front - 1) + 1 := by
      rw [byteLength_cons]
      omega
    have hrest : c.utf8Size + byteLength front - 1 + 1 - c.utf8Size = byteLength front := by omega
    rw [hsucc, List.cons_append, splitAtByte?, if_pos (by omega), hrest, ih]
    rfl

/-- A stretch of a text is what stands between its two ends. -/
theorem slice?_middle (front middle back : List Char) :
    slice? (byteLength front) (byteLength front + byteLength middle) (front ++ (middle ++ back)) =
      some middle := by
  have hrest : byteLength front + byteLength middle - byteLength front = byteLength middle :=
    Nat.add_sub_cancel_left _ _
  unfold slice?
  rw [if_pos (Nat.le_add_right _ _), splitAtByte?_append, hrest]
  show (splitAtByte? (byteLength middle) (middle ++ back)).bind _ = _
  rw [splitAtByte?_append]
  rfl

/-- The end of a text, likewise. -/
theorem slice?_append (front back : List Char) :
    slice? (byteLength front) (byteLength (front ++ back)) (front ++ back) = some back := by
  have hmiddle := slice?_middle front back []
  rw [List.append_nil, ← byteLength_append] at hmiddle
  exact hmiddle

end Text

/-! ## One character -/

namespace Draft

variable {shell : Shell} {draft next : Draft} {c : Char}

/-- The character stands for itself here: it is no quote, no escape, and no blank that ends the
word. Which characters quote and escape is the shell's (specification, § E2.5). -/
def isLiteral (shell : Shell) (draft : Draft) (c : Char) : Bool :=
  draft.escaped ||
    match draft.quote with
    | some quote =>
      c != quote && !(c == shell.escapeChar && quote == '"' && shell.escapesInDoubleQuotes)
    | none => !Text.isBlank c && !shell.isQuote c && c != shell.escapeChar

/-- The text grows by the literal characters, and by nothing else. The cases are the reader's own:
after an escape, inside of quotes, outside; both sides are computed in each. -/
theorem text_of_absorb? (h : draft.absorb? shell c = some next) :
    next.text = if draft.isLiteral shell c then draft.text.push c else draft.text := by
  unfold absorb? at h
  unfold isLiteral
  by_cases hescaped : draft.escaped = true
  · rw [if_pos hescaped] at h
    cases h
    simp [hescaped]
  · rw [if_neg hescaped] at h
    cases hquote : draft.quote with
    | some quote =>
      rw [hquote] at h
      dsimp only at h
      split at h
      · rename_i hcloses
        cases h
        simp [hescaped, hcloses]
      · rename_i hstays
        split at h
        · rename_i hescapes
          cases h
          simp_all
        · rename_i hplain
          cases h
          simp_all
    | none =>
      rw [hquote] at h
      dsimp only at h
      split at h
      · cases h
      · rename_i hblank
        split at h
        · rename_i hopens
          cases h
          simp [hescaped, hopens]
        · rename_i hplain
          split at h
          · rename_i hescapes
            cases h
            simp [hescaped, hescapes]
          · rename_i hother
            cases h
            simp [hescaped, hblank, hplain, hother]

/-- A literal character does not end the word. -/
theorem exists_absorb?_of_isLiteral (h : draft.isLiteral shell c = true) :
    ∃ next, draft.absorb? shell c = some next ∧ next.text = draft.text.push c := by
  have hsome : ∃ next, draft.absorb? shell c = some next := by
    unfold isLiteral at h
    unfold absorb?
    by_cases hescaped : draft.escaped = true
    · exact ⟨_, if_pos hescaped⟩
    · rw [if_neg hescaped]
      cases hquote : draft.quote with
      | some quote =>
        dsimp only
        split
        · exact ⟨_, rfl⟩
        · split <;> exact ⟨_, rfl⟩
      | none =>
        rw [hquote] at h
        have hblank : ¬ Text.isBlank c = true := by
          intro hcontra
          simp [hescaped, hcontra] at h
        dsimp only
        rw [if_neg hblank]
        split
        · exact ⟨_, rfl⟩
        · split <;> exact ⟨_, rfl⟩
  obtain ⟨next, hnext⟩ := hsome
  refine ⟨next, hnext, ?_⟩
  rw [text_of_absorb? hnext, if_pos h]

/-- A word stays where it began. -/
theorem start_of_absorb? (h : draft.absorb? shell c = some next) : next.start = draft.start := by
  -- Every way to absorb a character changes other fields only.
  unfold absorb? at h
  split at h
  · cases h
    rfl
  · split at h
    · split at h
      · cases h
        rfl
      · split at h <;> (cases h; rfl)
    · split at h
      · cases h
      · split at h
        · cases h
          rfl
        · split at h <;> (cases h; rfl)

/-- Only a blank ends a word, and only outside quotes and not after an escape. -/
theorem isBlank_of_absorb? (h : draft.absorb? shell c = none) :
    draft.escaped = false ∧ draft.quote = none ∧ Text.isBlank c = true := by
  unfold absorb? at h
  split at h
  · cases h
  · rename_i hescaped
    split at h
    · split at h
      · cases h
      · split at h <;> cases h
    · rename_i hquote
      split at h
      · rename_i hblank
        exact ⟨by simpa using hescaped, hquote, hblank⟩
      · split at h
        · cases h
        · split at h <;> cases h

/-- There it does. -/
theorem absorb?_of_isBlank (hquote : draft.quote = none) (hescaped : draft.escaped = false)
    (hblank : Text.isBlank c = true) : draft.absorb? shell c = none := by
  unfold absorb?
  rw [hescaped, hquote]
  simp [hblank]

end Draft

/-! ## Stretches -/

namespace Shell

variable {shell : Shell} {offset : Nat} {draft draft' : Option Draft} {c : Char}
variable {cs front back : List Char}

/-- One character further: the word that it ends, if any, and what is in
progress then. -/
def advance (shell : Shell) (offset : Nat) (draft : Option Draft) (c : Char) :
    List Word × Option Draft :=
  match draft with
  | some d =>
    match d.absorb? shell c with
    | some d' => ([], some d')
    | none => ([d.close offset true], none)
  | none => ([], ({ start := offset } : Draft).absorb? shell c)

/-- Reads a stretch of a line that begins at byte offset `offset`: the words that end in it, and
what is in progress at its end. Unlike `wordsFrom` it does not close the last word, and so can be
cut. -/
def readFrom (shell : Shell) (offset : Nat) (draft : Option Draft) :
    List Char → List Word × Option Draft
  | [] => ([], draft)
  | c :: cs =>
    let here := shell.advance offset draft c
    let there := readFrom shell (offset + c.utf8Size) here.2 cs
    (here.1 ++ there.1, there.2)

@[simp] theorem readFrom_nil : shell.readFrom offset draft [] = ([], draft) := rfl

theorem readFrom_cons : shell.readFrom offset draft (c :: cs) =
    ((shell.advance offset draft c).1 ++
        (shell.readFrom (offset + c.utf8Size) (shell.advance offset draft c).2 cs).1,
      (shell.readFrom (offset + c.utf8Size) (shell.advance offset draft c).2 cs).2) := rfl

/-- **A line can be cut anywhere.** What the first stretch leaves in progress is all that the second
needs to know; the induction is on the first, with offset and draft general. -/
theorem readFrom_append (front back : List Char) : shell.readFrom offset draft (front ++ back) =
    ((shell.readFrom offset draft front).1 ++
        (shell.readFrom (offset + Text.byteLength front)
          (shell.readFrom offset draft front).2 back).1,
      (shell.readFrom (offset + Text.byteLength front)
        (shell.readFrom offset draft front).2 back).2) := by
  induction front generalizing offset draft with
  | nil => rfl
  | cons c front ih =>
    rw [List.cons_append, readFrom_cons, ih, readFrom_cons, Text.byteLength_cons, ← Nat.add_assoc,
      List.append_assoc]

theorem wordsFrom_cons : shell.wordsFrom offset draft (c :: cs) =
    (shell.advance offset draft c).1 ++
      shell.wordsFrom (offset + c.utf8Size) (shell.advance offset draft c).2 cs := by
  -- `wordsFrom` is written by cases on the draft, and `advance` brings the two cases together.
  cases draft with
  | none => rfl
  | some d =>
    show (match d.absorb? shell c with
      | some d' => shell.wordsFrom (offset + c.utf8Size) (some d') cs
      | none => d.close offset true :: shell.wordsFrom (offset + c.utf8Size) none cs) = _
    unfold advance
    dsimp only
    cases d.absorb? shell c <;> rfl

/-- The words of a stretch at the end of a line are those that end in it, and the one that is left
in progress. All statements about whole lines are proved of `readFrom` and carried over by this. -/
theorem wordsFrom_eq : shell.wordsFrom offset draft cs =
    (shell.readFrom offset draft cs).1 ++
      ((shell.readFrom offset draft cs).2.map fun d =>
        d.close (offset + Text.byteLength cs) false).toList := by
  induction cs generalizing offset draft with
  | nil => rfl
  | cons c cs ih =>
    rw [readFrom_cons, Text.byteLength_cons, ← Nat.add_assoc, List.append_assoc, ← ih]
    exact wordsFrom_cons

/-- A word that ended was in progress before. -/
theorem exists_close_of_mem_readFrom {word : Word}
    (h : word ∈ (shell.readFrom offset draft cs).1) :
    ∃ (last : Draft) (stop : Nat), word = last.close stop true := by
  induction cs generalizing offset draft with
  | nil => cases h
  | cons c cs ih =>
    rw [readFrom_cons, List.mem_append] at h
    -- It ended with the first character or in what comes after it.
    rcases h with h | h
    · unfold advance at h
      split at h
      · split at h
        · cases h
        · exact ⟨_, _, List.mem_singleton.mp h⟩
      · cases h
    · exact ih h

/-- A word that ended is complete. -/
theorem complete_of_mem_readFrom {word : Word} (h : word ∈ (shell.readFrom offset draft cs).1) :
    word.complete = true := by
  obtain ⟨last, stop, rfl⟩ := exists_close_of_mem_readFrom h
  rfl

/-! ## Within a word -/

/-- What the next character is added to: the word in progress, or else a word
that begins with it. -/
def draftAt (offset : Nat) (draft : Option Draft) : Draft := draft.getD { start := offset }

theorem advance_snd : (shell.advance offset draft c).2 = (draftAt offset draft).absorb? shell c := by
  cases draft with
  | none => rfl
  | some d =>
    unfold advance draftAt
    cases habsorb : d.absorb? shell c with
    | none => simp [habsorb]
    | some next => simp [habsorb]

/-- Every character of a stretch stands for itself. It cannot be said of one character after the
other without the reader, since a quote changes what the following ones are. -/
def LiteralFrom (shell : Shell) (offset : Nat) (draft : Option Draft) : List Char → Prop
  | [] => True
  | c :: cs => (draftAt offset draft).isLiteral shell c = true ∧
    LiteralFrom shell (offset + c.utf8Size) (shell.advance offset draft c).2 cs

/-- Between two words a character begins one, unless it is not absorbed. -/
theorem advance_none :
    shell.advance offset none c = ([], ({ start := offset } : Draft).absorb? shell c) := rfl

/-- A character that is absorbed leaves the word in progress. -/
theorem advance_of_absorb? {d d' : Draft} (h : d.absorb? shell c = some d') :
    shell.advance offset (some d) c = ([], some d') := by
  unfold advance
  dsimp only
  rw [h]

/-- One that is not ends the word. -/
theorem advance_of_ends {d : Draft} (h : d.absorb? shell c = none) :
    shell.advance offset (some d) c = ([d.close offset true], none) := by
  unfold advance
  dsimp only
  rw [h]

theorem advance_of_isLiteral (h : (draftAt offset draft).isLiteral shell c = true) :
    ∃ next, shell.advance offset draft c = ([], some next) ∧
      next.text = (draftAt offset draft).text.push c := by
  obtain ⟨next, hnext, htext⟩ := Draft.exists_absorb?_of_isLiteral h
  cases draft with
  | some d => exact ⟨next, advance_of_absorb? hnext, htext⟩
  | none => exact ⟨next, by rw [advance_none]; exact congrArg _ hnext, htext⟩

/-- **A literal stretch is appended as it is**, to the word in progress or to a
word that begins with it. -/
theorem readFrom_of_literalFrom (hne : cs ≠ []) (h : shell.LiteralFrom offset draft cs) :
    ∃ last, shell.readFrom offset draft cs = ([], some last) ∧
      last.text.toList = (draftAt offset draft).text.toList ++ cs := by
  induction cs generalizing offset draft with
  | nil => exact absurd rfl hne
  | cons c cs ih =>
    obtain ⟨hliteral, hrest⟩ := h
    obtain ⟨next, hadvance, htext⟩ := advance_of_isLiteral hliteral
    rw [readFrom_cons, hadvance]
    -- The induction needs a rest that is not empty, so the last character is a case of its own.
    cases cs with
    | nil => exact ⟨next, rfl, by rw [htext, String.toList_push]⟩
    | cons c' cs =>
      rw [hadvance] at hrest
      obtain ⟨last, hread, hlast⟩ := ih (List.cons_ne_nil _ _) hrest
      refine ⟨last, by rw [hread]; rfl, ?_⟩
      rw [hlast]
      show next.text.toList ++ _ = _
      rw [htext, String.toList_push, List.append_assoc, List.singleton_append]

/-- Within a word, each character is absorbed and the next one read with what that
leaves. -/
theorem readFrom_cons_within {d last : Draft} :
    shell.readFrom offset (some d) (c :: cs) = ([], some last) ↔
      ∃ next, d.absorb? shell c = some next ∧
        shell.readFrom (offset + c.utf8Size) (some next) cs = ([], some last) := by
  rw [readFrom_cons]
  cases habsorb : d.absorb? shell c with
  | none =>
    rw [advance_of_ends habsorb]
    simp
  | some next =>
    rw [advance_of_absorb? habsorb]
    simp [Prod.ext_iff]

/-- **Within a word the text grows by as many characters as are read, or fewer**, and by as many
exactly if all are literal. The equivalence goes through the induction because no step can make up
for a character that was lost. -/
theorem readFrom_within {d last : Draft} (h : shell.readFrom offset (some d) cs = ([], some last)) :
    ∃ added, last.text.toList = d.text.toList ++ added ∧ added.length ≤ cs.length ∧
      (added.length = cs.length ↔ shell.LiteralFrom offset (some d) cs) := by
  induction cs generalizing offset d with
  | nil =>
    cases h
    exact ⟨[], by simp, Nat.le_refl _, by simp [LiteralFrom]⟩
  | cons c cs ih =>
    obtain ⟨next, habsorb, h⟩ := readFrom_cons_within.mp h
    obtain ⟨added, hadded, hlength, hliteral⟩ := ih h
    have htext := Draft.text_of_absorb? habsorb
    -- What is literal of the rest is asked of the draft that this character leaves.
    have hrest : shell.LiteralFrom offset (some d) (c :: cs) ↔
        d.isLiteral shell c = true ∧ shell.LiteralFrom (offset + c.utf8Size) (some next) cs := by
      rw [LiteralFrom, advance_of_absorb? habsorb]
      rfl
    by_cases hchar : d.isLiteral shell c = true
    · rw [if_pos hchar] at htext
      refine ⟨c :: added, ?_, Nat.succ_le_succ hlength, ?_⟩
      · rw [hadded, htext, String.toList_push, List.append_assoc, List.singleton_append]
      · rw [hrest, List.length_cons, List.length_cons, Nat.add_right_cancel_iff, hliteral]
        simp [hchar]
    · rw [if_neg hchar] at htext
      refine ⟨added, by rw [hadded, htext], Nat.le_succ_of_le hlength, ?_⟩
      rw [hrest, List.length_cons]
      constructor
      · intro hcontra
        omega
      · rintro ⟨hcontra, -⟩
        exact absurd hcontra hchar

/-- A word that is read on stays where it began. -/
theorem start_of_readFrom {d last : Draft}
    (h : shell.readFrom offset (some d) cs = ([], some last)) : last.start = d.start := by
  induction cs generalizing offset d with
  | nil =>
    cases h
    rfl
  | cons c cs ih =>
    obtain ⟨next, habsorb, h⟩ := readFrom_cons_within.mp h
    rw [ih h, Draft.start_of_absorb? habsorb]

/-- A text has at most as many characters as were read for it. -/
theorem length_text_le {words : List Word} {last : Draft}
    (h : shell.readFrom offset draft cs = (words, some last)) :
    last.text.toList.length ≤ (draftAt offset draft).text.toList.length + cs.length := by
  induction cs generalizing offset draft words with
  | nil =>
    cases h
    exact Nat.le_refl _
  | cons c cs ih =>
    rw [readFrom_cons, Prod.mk.injEq] at h
    have hrest := ih (Prod.ext rfl h.2)
    -- One character adds at most itself, whether it begins a word, is absorbed or ends one.
    have hstep : (draftAt (offset + c.utf8Size) (shell.advance offset draft c).2).text.toList.length
        ≤ (draftAt offset draft).text.toList.length + 1 := by
      rw [advance_snd]
      cases habsorb : (draftAt offset draft).absorb? shell c with
      | none => simp [draftAt]
      | some next =>
        show next.text.toList.length ≤ _
        rw [Draft.text_of_absorb? habsorb]
        split
        · exact Nat.le_of_eq (by rw [String.toList_push, List.length_append, List.length_singleton])
        · exact Nat.le_succ _
    rw [List.length_cons]
    omega

/-! ## Whole lines -/

variable {line : String} {ended : List Word}

/-- A line ends between two words or within one. -/
theorem readFrom_line_cases (shell : Shell) (line : String) :
    (∃ ended, shell.readFrom 0 none line.toList = (ended, none)) ∨
      ∃ ended last, shell.readFrom 0 none line.toList = (ended, some last) := by
  obtain ⟨ended, draft, hread⟩ : ∃ ended draft,
      shell.readFrom 0 none line.toList = (ended, draft) := ⟨_, _, rfl⟩
  cases draft with
  | none => exact .inl ⟨ended, hread⟩
  | some last => exact .inr ⟨ended, last, hread⟩

/-- Between two words, the words of a line are those that have ended. -/
theorem words_of_readFrom_none (h : shell.readFrom 0 none line.toList = (ended, none)) :
    shell.words line = ended := by
  rw [words, wordsFrom_eq, h]
  exact List.append_nil ended

/-- Within a word, that one comes after them, in progress. -/
theorem words_of_readFrom_some {last : Draft}
    (h : shell.readFrom 0 none line.toList = (ended, some last)) :
    shell.words line = ended ++ [last.close (Text.byteLength line.toList) false] := by
  rw [words, wordsFrom_eq, h, Nat.zero_add]
  rfl

/-- The words of a line end in one in progress exactly if its reading leaves a draft: words that
have ended are complete, and the one that has not is closed at the end of the line. -/
theorem words_eq_concat_iff {earlier : List Word} {current : Word} :
    shell.words line = earlier ++ [current] ∧ current.complete = false ↔
      ∃ last, shell.readFrom 0 none line.toList = (earlier, some last) ∧
        current = last.close (Text.byteLength line.toList) false := by
  constructor
  · rintro ⟨hwords, hcurrent⟩
    rcases shell.readFrom_line_cases line with ⟨ended, hread⟩ | ⟨ended, last, hread⟩
    · -- All words have ended, so none is in progress.
      have hmem : current ∈ (shell.readFrom 0 none line.toList).1 := by
        rw [hread, ← words_of_readFrom_none hread, hwords]
        exact List.mem_concat_self
      rw [complete_of_mem_readFrom hmem] at hcurrent
      cases hcurrent
    · rw [words_of_readFrom_some hread] at hwords
      obtain ⟨rfl, hlast⟩ := List.append_inj' hwords rfl
      exact ⟨last, hread, (List.singleton_inj.mp hlast).symm⟩
  · rintro ⟨last, hread, rfl⟩
    exact ⟨words_of_readFrom_some hread, rfl⟩

end Shell

end CommandCompletion
