/-
Reading undoes writing.

Whatever the form in which a word was written, reading its raw form leaves a draft that
holds the text and in which no quote and no escape is open (`Shell.readsAs_write`). So the
next blank ends the word, and nothing of it is left behind for the words that follow: a
line of written words is read as these words (`WrittenWord.words_line`).
-/
import CommandCompletion.Proofs.Tiling
import CommandCompletion.Proofs.TypingOn
import CommandCompletion.Word.Writing
import Mathlib.Data.List.Forall2

set_option autoImplicit false

namespace CommandCompletion

variable {shell : Shell} {offset : Nat} {cs : List Char} {c : Char} {draft : Draft}
variable {text : String}

namespace Draft

/-! ## Characters that are special -/

/-- A character without a meaning of its own is added to a word that is neither quoted nor escaped.
-/
theorem absorb?_of_ordinary (hquote : draft.quote = none) (hescaped : draft.escaped = false)
    (hordinary : shell.isOrdinary c = true) :
    draft.absorb? shell c = some { draft with text := draft.text.push c } := by
  simp only [Shell.isOrdinary, Bool.and_eq_true, Bool.not_eq_true', bne_iff_ne, ne_eq]
    at hordinary
  obtain ⟨⟨hblank, hopens⟩, hescapes⟩ := hordinary
  unfold absorb?
  rw [hescaped, hquote]
  simp [hblank, hopens, hescapes]

/-- Outside quotes the escape character makes the next one literal, and adds nothing itself. -/
theorem absorb?_escapeChar (hquote : draft.quote = none) (hescaped : draft.escaped = false) :
    draft.absorb? shell shell.escapeChar = some { draft with escaped := true } := by
  unfold absorb?
  rw [hescaped, hquote]
  cases shell <;> rfl

/-- Between double quotes it does so where the shell says so (specification, § E2.5). -/
theorem absorb?_escapeChar_within (hquote : draft.quote = some '"')
    (hescaped : draft.escaped = false) (hescapes : shell.escapesInDoubleQuotes = true) :
    draft.absorb? shell shell.escapeChar = some { draft with escaped := true } := by
  unfold absorb?
  rw [hescaped, hquote]
  cases shell
  case cmd => cases hescapes
  all_goals rfl

/-- A quote of the shell opens a quoted part, and from then on the word counts as quoted. No quote
is a blank, so it does not end a word. -/
theorem absorb?_opening (hquote : draft.quote = none) (hescaped : draft.escaped = false)
    (hopens : shell.isQuote c = true) :
    draft.absorb? shell c = some { draft with quote := some c, quoted := true } := by
  have hblank : Text.isBlank c = false := by
    unfold Shell.isQuote at hopens
    rw [Bool.or_eq_true, Bool.and_eq_true, beq_iff_eq, beq_iff_eq] at hopens
    rcases hopens with rfl | ⟨rfl, -⟩ <;> decide
  unfold absorb?
  rw [hescaped, hquote]
  simp [hblank, hopens]

/-- The same quote closes it, and the word goes on. -/
theorem absorb?_closing (hquote : draft.quote = some c) (hescaped : draft.escaped = false) :
    draft.absorb? shell c = some { draft with quote := none } := by
  unfold absorb?
  rw [hescaped, hquote]
  simp

/-- Between quotes every other character is literal, unless it is an escape. -/
theorem absorb?_quoted {quote : Char} (hquote : draft.quote = some quote)
    (hescaped : draft.escaped = false) (hother : c ≠ quote)
    (hplain : c = shell.escapeChar → quote = '"' → shell.escapesInDoubleQuotes = false) :
    draft.absorb? shell c = some { draft with text := draft.text.push c } := by
  unfold absorb?
  rw [hescaped, hquote]
  -- The escape character between double quotes is the one case that hangs on the shell.
  by_cases hescapes : c = shell.escapeChar ∧ quote = '"'
  · simp [hother, hplain hescapes.1 hescapes.2]
  · rw [not_and] at hescapes
    simp only [hother, Bool.false_eq_true, if_false]
    split
    · rename_i hcontra
      simp only [Bool.and_eq_true, decide_eq_true_eq] at hcontra
      exact absurd hcontra.1.2 (hescapes hcontra.1.1)
    · rfl

end Draft

namespace Shell

/-! ## Texts that are written character by character -/

/-- A draft in the state of `draft` takes up `raw` as the one character `c`, and is in the same
state after it. What was read before does not matter, nor where in the line it stands. -/
def Adds (shell : Shell) (draft : Draft) (raw : List Char) (c : Char) : Prop :=
  ∀ offset text, shell.readFrom offset (some { draft with text := text }) raw =
    ([], some { draft with text := text.push c })

/-- A text is taken up if each of its characters is, by induction on the characters. The state is
the same before each of them, so one fact about the form serves for all. -/
theorem readFrom_flatMap {write : Char → List Char} (offset : Nat)
    (h : ∀ c ∈ cs, shell.Adds draft (write c) c) :
    shell.readFrom offset (some draft) (cs.flatMap write) =
      ([], some { draft with text := draft.text ++ String.ofList cs }) := by
  induction cs generalizing offset draft with
  | nil =>
    have htext : draft.text ++ String.ofList [] = draft.text := String.append_empty
    rw [List.flatMap_nil, readFrom_nil, htext]
  | cons c cs ih =>
    let next : Draft := { draft with text := draft.text.push c }
    have hfirst : shell.readFrom offset (some draft) (write c) = ([], some next) :=
      h c List.mem_cons_self offset draft.text
    have hlater : ∀ c' ∈ cs, shell.Adds next (write c') c' := by
      intro c' hmem
      exact h c' (List.mem_cons_of_mem c hmem)
    have htext : next.text ++ String.ofList cs = draft.text ++ String.ofList (c :: cs) := by
      apply String.toList_injective
      simp [next]
    rw [List.flatMap_cons, readFrom_append, hfirst]
    dsimp only
    rw [ih _ hlater, htext]
    rfl

/-- A literal character is taken up as itself. -/
theorem adds_of_absorb? (h : ∀ text, ({ draft with text := text } : Draft).absorb? shell c =
    some { draft with text := text.push c }) : shell.Adds draft [c] c := by
  intro offset text
  exact readFrom_cons_within.mpr ⟨_, h text, rfl⟩

/-- Behind an escape every character is, whatever it means without one. -/
theorem adds_of_escape (hescaped : draft.escaped = false)
    (h : ∀ text, ({ draft with text := text } : Draft).absorb? shell shell.escapeChar =
      some { draft with text := text, escaped := true }) :
    shell.Adds draft [shell.escapeChar, c] c := by
  intro offset text
  refine readFrom_cons_within.mpr ⟨_, h text, readFrom_cons_within.mpr ⟨_, rfl, ?_⟩⟩
  rw [readFrom_nil, hescaped]

/-! ## Raw forms -/

/-- What is written without quotes, if it is taken up there. The text must not be empty: without
quotes nothing would show that there is a word. -/
theorem readsAs_unquoted {write : Char → List Char} (hne : text ≠ "")
    (hwrites : ∀ c, write c ≠ [])
    (hadds : ∀ c ∈ text.toList, shell.Adds { start := offset } (write c) c) :
    shell.ReadsAs offset (text.toList.flatMap write) { start := offset, text := text } where
  nonempty := by
    intro hnone
    cases hchars : text.toList with
    | nil => exact hne (String.toList_eq_nil_iff.mp hchars)
    | cons c cs =>
      rw [hchars, List.flatMap_cons, List.append_eq_nil_iff] at hnone
      exact hwrites c hnone.1
  read := by
    have htext : "" ++ String.ofList text.toList = text := by simp
    have hread := readFrom_flatMap offset hadds
    dsimp only at hread
    rw [htext] at hread
    exact hread

/-- What is written between two quotes, if it is taken up there. The empty text can be written so.
-/
theorem readsAs_quoted {quote : Char} {write : Char → List Char}
    (hopens : shell.isQuote quote = true)
    (hadds : ∀ c ∈ text.toList,
      shell.Adds { start := offset, quote := some quote, quoted := true } (write c) c) :
    shell.ReadsAs offset (quote :: (text.toList.flatMap write ++ [quote]))
      { start := offset, text := text, quoted := true } where
  nonempty := List.cons_ne_nil _ _
  read := by
    have htext : "" ++ String.ofList text.toList = text := by simp
    have hread := readFrom_flatMap (offset + quote.utf8Size) hadds
    dsimp only at hread
    rw [htext] at hread
    refine readFrom_cons_within.mpr ⟨_, Draft.absorb?_opening rfl rfl hopens, ?_⟩
    rw [readFrom_append, hread]
    dsimp only
    rw [readFrom_cons_within.mpr ⟨_, Draft.absorb?_closing rfl rfl, rfl⟩]
    rfl

/-- A character is written between double quotes as it is taken up there: escaped if it needs to be
and can, and as it is otherwise. -/
theorem adds_betweenDoubleQuotes {draft : Draft} (hquote : draft.quote = some '"')
    (hescaped : draft.escaped = false)
    (hserves : shell.escapesInDoubleQuotes = true ∨ c ≠ '"') :
    shell.Adds draft (Quoting.betweenDoubleQuotes shell c) c := by
  unfold Quoting.betweenDoubleQuotes
  split
  · rename_i hspecial
    rw [Bool.and_eq_true] at hspecial
    exact adds_of_escape hescaped fun _ => Draft.absorb?_escapeChar_within hquote hescaped hspecial.1
  · rename_i hplain
    refine adds_of_absorb? fun _ => Draft.absorb?_quoted hquote hescaped ?_ ?_
    · rintro rfl
      rcases hserves with hserves | hserves
      · simp [hserves] at hplain
      · exact hserves rfl
    · rintro rfl -
      simpa using hplain

/-- **Every form that serves is read back**, and leaves no quote and no escape open. One case for
each form: what it asks of the text is what its characters need to be taken up. -/
theorem readsAs_write {quoting : Quoting} (offset : Nat)
    (hserves : quoting.serves shell text = true) :
    shell.ReadsAs offset (quoting.write shell text)
      { start := offset, text := text, quoted := quoting.quotes } := by
  cases quoting with
  | bare =>
    obtain ⟨hne, hplain⟩ := Bool.and_eq_true_iff.mp hserves
    have hadds : ∀ c ∈ text.toList, shell.Adds { start := offset } [c] c := by
      intro c hmem
      refine adds_of_absorb? fun _ => Draft.absorb?_of_ordinary rfl rfl ?_
      exact List.all_eq_true.mp hplain c hmem
    have hread := readsAs_unquoted (bne_iff_ne.mp hne) (fun c => List.cons_ne_nil c []) hadds
    rw [List.flatMap_singleton'] at hread
    exact hread
  | escapes =>
    refine readsAs_unquoted (bne_iff_ne.mp hserves) (fun c => List.cons_ne_nil _ [c]) ?_
    intro c _
    exact adds_of_escape rfl fun _ => Draft.absorb?_escapeChar rfl rfl
  | doubleQuotes =>
    refine readsAs_quoted rfl fun c hmem => adds_betweenDoubleQuotes rfl rfl ?_
    rcases Bool.or_eq_true_iff.mp hserves with hescapes | hnone
    · exact .inl hescapes
    · right
      rintro rfl
      simp [hmem] at hnone
  | singleQuotes =>
    -- Between single quotes nothing is escaped, so the text must not have one.
    obtain ⟨hsingle, hnone⟩ := Bool.and_eq_true_iff.mp hserves
    have hopens : shell.isQuote '\'' = true := hsingle
    have hadds : ∀ c ∈ text.toList,
        shell.Adds { start := offset, quote := some '\'', quoted := true } [c] c := by
      intro c hmem
      refine adds_of_absorb? fun _ => Draft.absorb?_quoted rfl rfl ?_ ?_
      · rintro rfl
        simp [hmem] at hnone
      · intro _ hdouble
        cases hdouble
    have hread := readsAs_quoted hopens hadds
    rw [List.flatMap_singleton'] at hread
    exact hread

/-! ## Lines -/

/-- Blanks between two words are passed over, by induction on their number. -/
theorem wordsFrom_blanks {blanks : List Char} (hblank : ∀ c ∈ blanks, Text.isBlank c = true) :
    shell.wordsFrom offset none (blanks ++ cs) =
      shell.wordsFrom (offset + Text.byteLength blanks) none cs := by
  induction blanks generalizing offset with
  | nil => rfl
  | cons c blanks ih =>
    have hnone : ({ start := offset } : Draft).absorb? shell c = none :=
      Draft.absorb?_of_isBlank rfl rfl (hblank c List.mem_cons_self)
    have hlater : ∀ c' ∈ blanks, Text.isBlank c' = true := by
      intro c' hmem
      exact hblank c' (List.mem_cons_of_mem c hmem)
    rw [List.cons_append, wordsFrom_cons, advance_none, hnone, Text.byteLength_cons,
      ← Nat.add_assoc]
    exact ih hlater

/-- A raw word begins where no word is in progress, with its first character, which is no blank. -/
theorem ReadsAs.readFrom_none {raw : List Char} (h : shell.ReadsAs offset raw draft) :
    shell.readFrom offset none raw = ([], some draft) := by
  obtain ⟨first, rest, rfl, -⟩ := h.exists_first
  obtain ⟨next, habsorb, hrest⟩ := readFrom_cons_within.mp h.read
  rw [readFrom_cons, advance_none, habsorb, hrest]
  rfl

/-- A raw word with blanks behind it is one word, and what follows is read as if it were not there.
Without blanks it has to be the last. -/
theorem wordsFrom_raw {raw gap : List Char} (h : shell.ReadsAs offset raw draft)
    (hquote : draft.quote = none) (hescaped : draft.escaped = false)
    (hblank : ∀ c ∈ gap, Text.isBlank c = true) (hgap : gap = [] → cs = []) :
    shell.wordsFrom offset none (raw ++ gap ++ cs) =
      draft.close (offset + Text.byteLength raw) (!gap.isEmpty) ::
        shell.wordsFrom (offset + Text.byteLength (raw ++ gap)) none cs := by
  rw [List.append_assoc, wordsFrom_append, h.readFrom_none, List.nil_append]
  -- The first blank ends the word, and the others are passed over.
  cases gap with
  | nil =>
    rw [hgap rfl]
    rfl
  | cons c gap =>
    have hends : draft.absorb? shell c = none :=
      Draft.absorb?_of_isBlank hquote hescaped (hblank c List.mem_cons_self)
    have hlater : ∀ c' ∈ gap, Text.isBlank c' = true := by
      intro c' hmem
      exact hblank c' (List.mem_cons_of_mem c hmem)
    rw [List.cons_append, wordsFrom_cons, advance_of_ends hends, wordsFrom_blanks hlater,
      Text.byteLength_append, Text.byteLength_cons, Nat.add_assoc (offset + _), Nat.add_assoc offset]
    rfl

end Shell

namespace WrittenWord

/-- The word is read from what was written: its text is the same, it is complete if a blank came
behind it, and quoted if it was written between quotes; then it is no option. -/
structure IsReadAs (written : WrittenWord) (word : Word) : Prop where
  text : word.text = written.text
  complete_iff : word.complete = true ↔ written.gap ≠ ""
  isQuoted : word.isQuoted = written.quoting.quotes
  isOption_iff : word.isOption = true ↔
    written.quoting.quotes = false ∧ Word.looksLikeOption written.text = true

variable {first : WrittenWord} {written : List WrittenWord}

/-- What is asked of a line of written words is asked of each rest of it. -/
theorem Separated.tail (h : Separated shell (first :: written)) : Separated shell written where
  serves word hmem := h.serves word (List.mem_cons_of_mem first hmem)
  blank word hmem := h.blank word (List.mem_cons_of_mem first hmem)
  apart word hmem := by
    refine h.apart word ?_
    cases written with
    | nil => cases hmem
    | cons => exact List.mem_cons_of_mem first hmem

/-- Nothing stands directly behind a word but the end of the line. -/
theorem Separated.eq_nil (h : Separated shell (first :: written)) (hgap : first.gap = "") :
    written = [] := by
  cases written with
  | nil => rfl
  | cons => exact absurd hgap (h.apart first List.mem_cons_self)

/-- The rest of a line that consists of written words is read as these, from any offset. By
induction on the words, since the first is read off with the blanks behind it. -/
theorem wordsFrom_written (h : Separated shell written) :
    List.Forall₂ IsReadAs written (shell.wordsFrom offset none
      (written.flatMap fun word => word.quoting.write shell word.text ++ word.gap.toList)) := by
  induction written generalizing offset with
  | nil => exact .nil
  | cons first written ih =>
    have hraw := Shell.readsAs_write offset (h.serves first List.mem_cons_self)
    have hblank : ∀ c ∈ first.gap.toList, Text.isBlank c = true :=
      List.all_eq_true.mp (h.blank first List.mem_cons_self)
    have hgap : first.gap.toList = [] → (written.flatMap fun word =>
        word.quoting.write shell word.text ++ word.gap.toList) = [] := by
      intro hnone
      rw [h.eq_nil (String.toList_eq_nil_iff.mp hnone)]
      rfl
    rw [List.flatMap_cons, Shell.wordsFrom_raw hraw rfl rfl hblank hgap]
    refine .cons ⟨rfl, ?_, rfl, ?_⟩ (ih h.tail)
    · simp [Draft.close]
    · simp [Draft.close]

/-- **A line of written words is read as these words** (specification, § E2.5), in any mix of forms:
no word is lost, and none leaves a quote or an escape open for the next. -/
theorem words_line (h : Separated shell written) :
    List.Forall₂ IsReadAs written (shell.words (line shell written)) := by
  have hline : (line shell written).toList =
      written.flatMap fun word => word.quoting.write shell word.text ++ word.gap.toList :=
    String.toList_ofList
  unfold Shell.words
  rw [hline]
  exact wordsFrom_written h

/-- A word in each form, one of them empty, with a blank, an escape, both quotes and a line
feed among their characters. -/
def mixed : List WrittenWord := [
  ⟨"git", .bare, "\t"⟩,
  ⟨"it's", .escapes, "  "⟩,
  ⟨"", .doubleQuotes, "\u3000"⟩,
  ⟨"-say \"a\\b\"", .doubleQuotes, " \n"⟩,
  ⟨"two\nlines", .singleQuotes, ""⟩]

/-- The line as it is written, and its five words. -/
theorem words_line_mixed : Separated .bash mixed ∧
    line .bash mixed =
      "git\t\\i\\t\\'\\s  \"\"\u3000\"-say \\\"a\\\\b\\\"\" \n'two\nlines'" ∧
    List.Forall₂ IsReadAs mixed (Shell.words .bash (line .bash mixed)) := by
  have hseparated : Separated .bash mixed := ⟨by decide, by decide, by decide⟩
  exact ⟨hseparated, by decide +kernel, words_line hseparated⟩

end WrittenWord

end CommandCompletion
