/-
What typing on does to the words of a line.

A reader that has read a line keeps nothing of it but the draft of the word in
progress, so the words of a longer line are those that have ended and what that draft
makes of the rest (`words_eq_readFrom`). No later character reaches back to a word that
has ended.

If no word is in progress, the rest is read as a line of its own. Offsets are all that
tells where on a line a word stands, and reading only ever adds to them, so the same
words come out, moved along (`wordsFrom_shifted`). If a word is in progress, the rest is
not read as a line of its own: the condition is necessary (`Shell.words_append`).
-/
import CommandCompletion.Proofs.Splitting

set_option autoImplicit false

namespace CommandCompletion

/-! ## Moving along a line -/

/-- The same word on a line that has `bytes` more bytes in front. -/
def Word.shifted (word : Word) (bytes : Nat) : Word :=
  { word with span := ⟨bytes + word.span.start, bytes + word.span.stop⟩ }

namespace Draft

/-- The same draft on a line that has `bytes` more bytes in front. -/
def shifted (draft : Draft) (bytes : Nat) : Draft := { draft with start := bytes + draft.start }

/-- Where a word began says nothing about the characters that it absorbs. All cases of the reader
agree because none of them looks at an offset. -/
theorem absorb?_shifted (shell : Shell) (draft : Draft) (bytes : Nat) (c : Char) :
    (draft.shifted bytes).absorb? shell c = (draft.absorb? shell c).map (·.shifted bytes) := by
  obtain ⟨start, text, quote, quoted, escaped⟩ := draft
  unfold absorb? shifted
  dsimp only
  -- An escaped character, then inside of quotes, then outside.
  split
  · rfl
  · cases quote with
    | some quote =>
      dsimp only
      split
      · rfl
      · split <;> rfl
    | none =>
      dsimp only
      split
      · rfl
      · split
        · rfl
        · split <;> rfl

end Draft

namespace Shell

variable {shell : Shell} {offset : Nat} {draft : Option Draft} {c : Char}
variable {cs front back : List Char} {line : String} {ended : List Word}

theorem advance_shifted (bytes : Nat) :
    shell.advance (bytes + offset) (draft.map (·.shifted bytes)) c =
      ((shell.advance offset draft c).1.map (·.shifted bytes),
        (shell.advance offset draft c).2.map (·.shifted bytes)) := by
  -- Between words one begins at the moved offset; within one, only its start has moved.
  cases draft with
  | none =>
    exact congrArg (([] : List Word), ·) (Draft.absorb?_shifted shell { start := offset } bytes c)
  | some d =>
    unfold advance
    rw [Option.map_some]
    dsimp only
    rw [Draft.absorb?_shifted]
    cases d.absorb? shell c <;> rfl

/-- **A stretch is read alike wherever it stands**: what is read of it only moves along. The
induction is on the characters, with the offset and the draft general. -/
theorem wordsFrom_shifted (bytes offset : Nat) (draft : Option Draft) (cs : List Char) :
    shell.wordsFrom (bytes + offset) (draft.map (·.shifted bytes)) cs =
      (shell.wordsFrom offset draft cs).map (·.shifted bytes) := by
  induction cs generalizing offset draft with
  -- At the end of the line the word in progress is closed there, which moves along as well.
  | nil => cases draft <;> rfl
  | cons c cs ih =>
    rw [wordsFrom_cons, wordsFrom_cons, advance_shifted, List.map_append, ← ih, Nat.add_assoc]

/-! ## Reading on -/

/-- Reading a line in two stretches, the second begins with what the first has left. -/
theorem wordsFrom_append : shell.wordsFrom offset draft (front ++ back) =
    (shell.readFrom offset draft front).1 ++
      shell.wordsFrom (offset + Text.byteLength front) (shell.readFrom offset draft front).2 back := by
  rw [wordsFrom_eq, wordsFrom_eq, readFrom_append, Text.byteLength_append, ← Nat.add_assoc,
    List.append_assoc]

theorem words_eq_readFrom (shell : Shell) (front back : String) : shell.words (front ++ back) =
    (shell.readFrom 0 none front.toList).1 ++
      shell.wordsFrom (Text.byteLength front.toList) (shell.readFrom 0 none front.toList).2
        back.toList := by
  unfold words
  rw [String.toList_append, wordsFrom_append, Nat.zero_add]

/-- The words of a line that are complete are those that have ended. -/
theorem filter_complete_words (shell : Shell) (line : String) :
    (shell.words line).filter (·.complete) = (shell.readFrom 0 none line.toList).1 := by
  have hended : (shell.readFrom 0 none line.toList).1.filter (·.complete) =
      (shell.readFrom 0 none line.toList).1 :=
    List.filter_eq_self.mpr fun word hmem => complete_of_mem_readFrom hmem
  -- The words that have ended are all complete, and a draft adds one that is not.
  rcases shell.readFrom_line_cases line with ⟨ended, hread⟩ | ⟨ended, last, hread⟩
  · rw [hread] at hended ⊢
    rw [words_of_readFrom_none hread]
    exact hended
  · rw [hread] at hended ⊢
    rw [words_of_readFrom_some hread, List.filter_append, hended]
    exact List.append_nil ended

/-- No word of a line is in progress exactly if its reading leaves no draft. -/
theorem complete_getLast?_iff :
    (∀ last ∈ (shell.words line).getLast?, last.complete = true) ↔
      ∃ ended, shell.readFrom 0 none line.toList = (ended, none) := by
  rcases shell.readFrom_line_cases line with ⟨ended, hread⟩ | ⟨ended, last, hread⟩
  · refine iff_of_true (fun last hlast => ?_) ⟨ended, hread⟩
    have hmem : last ∈ (shell.readFrom 0 none line.toList).1 := by
      rw [hread, ← words_of_readFrom_none hread]
      exact List.mem_of_mem_getLast? hlast
    exact complete_of_mem_readFrom hmem
  -- The last word is the draft, closed at the end of the line, and so it is in progress.
  · rw [words_of_readFrom_some hread, hread]
    simp [Draft.close]

/-- A line that is typed on between two words is read on as a line of its own. -/
theorem words_append_of_readFrom (h : shell.readFrom 0 none line.toList = (ended, none))
    (back : String) : shell.words (line ++ back) = shell.words line ++
      (shell.words back).map (·.shifted (Text.byteLength line.toList)) := by
  rw [words_eq_readFrom, h, words_of_readFrom_none h]
  exact congrArg _ (wordsFrom_shifted (Text.byteLength line.toList) 0 none back.toList)

/-- A blank behind a word in progress is not read as a line of its own: it ends the
word, or else belongs to it. -/
theorem words_append_blank_ne {last : Draft}
    (h : shell.readFrom 0 none line.toList = (ended, some last)) :
    shell.words (line ++ " ") ≠ shell.words line ++
      (shell.words " ").map (·.shifted (Text.byteLength line.toList)) := by
  have hblank : shell.words " " = [] := rfl
  rw [words_eq_readFrom, h, words_of_readFrom_some h, hblank, List.map_nil, List.append_nil]
  show ended ++ shell.wordsFrom _ (some last) [' '] ≠ _
  rw [wordsFrom_cons]
  intro hcontra
  have hwords := List.append_cancel_left hcontra
  -- A blank that ends the word makes it complete; one that belongs to it makes it longer.
  cases habsorb : last.absorb? shell ' ' with
  | none =>
    have hcomplete := congrArg (List.map Word.complete) hwords
    simp [advance, habsorb, wordsFrom, Draft.close] at hcomplete
  | some next =>
    have hstop := congrArg (List.map (·.span.stop)) hwords
    rw [advance_of_absorb? habsorb] at hstop
    simp [wordsFrom, Draft.close, Char.utf8Size] at hstop

/-! ## Typing on -/

/-- **Typing on only adds words** (specification, § E2.5, tokenizer). Whatever is typed behind a
line, its complete words stay the first ones, as they are. What is typed is read as a line of its
own, only further along, exactly if no word is in progress: the line has no words, or its last one
is complete. That the condition is necessary takes one continuation, a blank, which a word in
progress does not leave to itself. -/
theorem words_append (shell : Shell) (front : String) :
    (∀ back, (shell.words front).filter (·.complete) <+: shell.words (front ++ back)) ∧
      ((∀ back, shell.words (front ++ back) = shell.words front ++
          (shell.words back).map (·.shifted (Text.byteLength front.toList))) ↔
        ∀ last ∈ (shell.words front).getLast?, last.complete = true) := by
  refine ⟨fun back => ?_, ?_⟩
  · rw [filter_complete_words, words_eq_readFrom]
    exact List.prefix_append _ _
  -- Both sides say that reading the front leaves no draft.
  · rw [complete_getLast?_iff]
    constructor
    · intro hwords
      rcases shell.readFrom_line_cases front with hbetween | ⟨ended, last, hread⟩
      · exact hbetween
      · exact absurd (hwords " ") (words_append_blank_ne hread)
    · rintro ⟨ended, hread⟩ back
      exact words_append_of_readFrom hread back

/-- Within quotes, what is typed goes on with the word. -/
example : (words .bash ("cd 'my " ++ "dir'")).map (·.text) = ["cd", "my dir"] := by decide +kernel

end Shell

end CommandCompletion
