/-
Texts without what stands around them, and the lines of a text.

Blanks are trimmed off a field and slashes off a path in the same way: characters
of a class are dropped from the two ends. What is left is bare, and a bare text is
found again whatever was put around it (`strip_eq_iff`).

The lines of a text are what stands between its line feeds, but for a carriage return
at the end of a line and an empty line at the end of the text. To a reader who does
not mind these two, there is no difference (`filterMap_lines`).
-/
import CommandCompletion.Proofs.PathParts
import CommandCompletion.Text.Blank

set_option autoImplicit false

namespace CommandCompletion.Text

variable {p : Char → Bool} {cs before field after : List Char}

/-! ## Stripping -/

/-- Without the characters of a class at its two ends: they are dropped from the front, and then
from the back. -/
def strip (p : Char → Bool) (cs : List Char) : List Char :=
  ((cs.dropWhile p).reverse.dropWhile p).reverse

/-- Neither begins nor ends with a character of the class; in between there may be some. -/
structure Bare (p : Char → Bool) (cs : List Char) : Prop where
  start : ∀ c ∈ cs.head?, p c = false
  stop : ∀ c ∈ cs.getLast?, p c = false

/-- The empty text is bare, as it has no ends. -/
theorem bare_nil : Bare p [] :=
  ⟨fun c hc => absurd hc (Option.not_mem_none c), fun c hc => absurd hc (Option.not_mem_none c)⟩

/-- Nothing is dropped from a text that does not begin with a character of the class. -/
theorem dropWhile_of_head? (h : ∀ c ∈ cs.head?, p c = false) : cs.dropWhile p = cs := by
  cases cs with
  | nil => rfl
  | cons c cs => exact List.dropWhile_cons_of_neg (Bool.eq_false_iff.mp (h c rfl))

/-- What is left after dropping does not begin with one. -/
theorem head?_dropWhile (p : Char → Bool) (cs : List Char) :
    ∀ c ∈ (cs.dropWhile p).head?, p c = false := by
  induction cs with
  | nil => exact fun c hc => absurd hc (Option.not_mem_none c)
  | cons c cs ih =>
    by_cases hc : p c = true
    · rwa [List.dropWhile_cons_of_pos hc]
    · rw [List.dropWhile_cons_of_neg hc]
      intro d hd
      rw [← Option.some.inj hd]
      exact Bool.eq_false_iff.mpr hc

/-- Stripping undoes what was put around a bare text. An empty text is a case of its own, since then
what stands around it meets. -/
theorem strip_between (hbefore : ∀ c ∈ before, p c = true) (hafter : ∀ c ∈ after, p c = true)
    (hfield : Bare p field) : strip p (before ++ field ++ after) = field := by
  have hend : ∀ c ∈ after.reverse, p c = true := fun c hc => hafter c (List.mem_reverse.mp hc)
  unfold strip
  rw [List.append_assoc, List.dropWhile_append_of_pos hbefore]
  -- With nothing in between, all is dropped from the front at once.
  cases field with
  | nil =>
    rw [List.nil_append, ← List.append_nil after, List.dropWhile_append_of_pos hafter]
    rfl
  | cons c cs =>
    have hstart : (c :: cs ++ after).dropWhile p = c :: cs ++ after :=
      dropWhile_of_head? hfield.start
    have hstop : (c :: cs).reverse.dropWhile p = (c :: cs).reverse := by
      apply dropWhile_of_head?
      rw [List.head?_reverse]
      exact hfield.stop
    rw [hstart, List.reverse_append, List.dropWhile_append_of_pos hend, hstop,
      List.reverse_reverse]

/-- What is stripped off belongs to the class, on both sides. -/
theorem exists_around_strip (p : Char → Bool) (cs : List Char) :
    ∃ before after, cs = before ++ strip p cs ++ after ∧
      (∀ c ∈ before, p c = true) ∧ ∀ c ∈ after, p c = true := by
  have hall : ∀ cs : List Char, ∀ c ∈ cs.takeWhile p, p c = true :=
    fun _ c hc => List.all_eq_true.mp List.all_takeWhile c hc
  refine ⟨cs.takeWhile p, ((cs.dropWhile p).reverse.takeWhile p).reverse, ?_, hall cs, ?_⟩
  · unfold strip
    rw [List.append_assoc, ← List.reverse_append, List.takeWhile_append_dropWhile,
      List.reverse_reverse, List.takeWhile_append_dropWhile]
  · exact fun c hc => hall _ c (List.mem_reverse.mp hc)

/-- What is left is bare. Its end was stripped last; its beginning is that of the text before, if
anything is left. -/
theorem bare_strip (p : Char → Bool) (cs : List Char) : Bare p (strip p cs) := by
  have hstop : ∀ c ∈ (strip p cs).getLast?, p c = false := by
    unfold strip
    rw [List.getLast?_reverse]
    exact head?_dropWhile p _
  refine ⟨?_, hstop⟩
  -- What is left begins as it did before its end was stripped.
  have hdropped : strip p cs <+: cs.dropWhile p := by
    have hsuffix : (cs.dropWhile p).reverse.dropWhile p <:+ (cs.dropWhile p).reverse :=
      List.dropWhile_suffix p
    rw [← List.reverse_prefix, List.reverse_reverse] at hsuffix
    exact hsuffix
  intro c hc
  obtain ⟨rest, hrest⟩ := hdropped
  apply head?_dropWhile p cs c
  rw [← hrest, List.head?_append, Option.mem_def.mp hc]
  rfl

/-- **A text without what stands around it is all there is between**: it is the one bare text that
the whole is put together from. So a statement may speak of the parts and need not say how they are
found. -/
theorem strip_eq_iff : strip p cs = field ↔ Bare p field ∧ ∃ before after,
    cs = before ++ field ++ after ∧ (∀ c ∈ before, p c = true) ∧ ∀ c ∈ after, p c = true := by
  constructor
  · rintro rfl
    exact ⟨bare_strip p cs, exists_around_strip p cs⟩
  · rintro ⟨hfield, before, after, rfl, hbefore, hafter⟩
    exact strip_between hbefore hafter hfield

/-! ## Lines -/

section Lines

variable {α : Type} {read : String → Option α}

/-- Reading the lines one by one is reading what stands between the line feeds, if nothing is read
of an empty line and a carriage return at the end changes nothing. By induction on the characters,
with the line read so far left arbitrary. -/
theorem filterMap_linesFrom (hempty : read "" = none)
    (hreturn : ∀ cs, read (String.ofList (cs ++ ['\r'])) = read (String.ofList cs))
    (line cs : List Char) :
    ((linesFrom line cs).map String.ofList).filterMap read =
      ((cutFrom (· == '\n') line cs).map String.ofList).filterMap read := by
  have hdrop : ∀ line, read (String.ofList (dropReturn line).reverse) =
      read (String.ofList line.reverse) := by
    intro line
    unfold dropReturn
    split
    · rw [List.reverse_cons, hreturn]
    · rfl
  induction cs generalizing line with
  | nil =>
    -- At the end of the text an empty line is dropped here and read to no effect there.
    cases line with
    | nil => exact (List.filterMap_cons_none hempty).symm
    | cons c line => rfl
  | cons c cs ih =>
    rw [linesFrom, cutFrom]
    by_cases hc : c = '\n'
    · rw [if_pos hc, if_pos (beq_iff_eq.mpr hc), List.map_cons, List.map_cons,
        List.filterMap_cons, List.filterMap_cons, hdrop, ih]
    · rw [if_neg hc, if_neg (by simpa using hc), ih]

/-- The same for a whole text, where no line has begun. -/
theorem filterMap_lines (hempty : read "" = none)
    (hreturn : ∀ cs, read (String.ofList (cs ++ ['\r'])) = read (String.ofList cs)) (s : String) :
    (lines s).filterMap read = (cut (· == '\n') s).filterMap read :=
  filterMap_linesFrom hempty hreturn [] s.toList

end Lines

end CommandCompletion.Text
