/-
Quoted text that was written is read as the text.

Each form is read up to its closing quotes, whatever follows it except another quote. Only
the forms over several lines take some work: quotes may stand for themselves in them, so a
run of quotes at the end belongs to the text but for its last three (`readClosing_quotes`),
and a run in the middle must be too short to close anything (`readClosing_of_ne`).
-/
import CommandCompletion.Proofs.WrittenNumbers
import CommandCompletion.Toml.Writing

set_option autoImplicit false

namespace CommandCompletion.Toml

open Text (upperHexChar hexDigit?_upperHexChar hexDigit?)

/-! ## Characters -/

/-- What is no control character may stand for itself, a line feed if there may be lines. -/
theorem isTextChar_of_not_isControl {c : Char} (h : isControl c = false) :
    isTextChar c = true ∨ c = '\n' := by
  by_cases hline : c = '\n'
  · exact .inr hline
  · refine .inl ?_
    by_cases htab : c = '\t'
    · rw [htab]
      rfl
    · unfold isTextChar
      simp_all [isControl]

/-- A carriage return never stands for itself, so a form without escapes has none. -/
theorem not_isControl_return : ∀ c, isControl c = false → c ≠ '\r' := by
  rintro _ h rfl
  exact absurd h (by decide)

/-- The number of a control character has two digits, so an escape of four begins with two zeros. -/
theorem lt_of_isControl {c : Char} (h : isControl c = true) : c.toNat < 0x80 := by
  unfold isControl at h
  simp only [Bool.and_eq_true, Bool.or_eq_true, decide_eq_true_eq, beq_iff_eq] at h
  omega

/-- The four digits of an escape stand for the character they were written for, whatever follows
them. -/
theorem readCode_upperHexChar {c : Char} (h : c.toNat < 0x80) (rest : List Char) :
    readCode 4 ('0' :: '0' :: upperHexChar (c.toNat / 16) :: upperHexChar (c.toNat % 16) :: rest) =
      some (c, rest) := by
  have hdigits : ['0', '0', upperHexChar (c.toNat / 16), upperHexChar (c.toNat % 16)].mapM
      hexDigit? = some [0, 0, c.toNat / 16, c.toNat % 16] := by
    have hzero : hexDigit? '0' = some 0 := rfl
    have hhigh := hexDigit?_upperHexChar (show c.toNat / 16 < 16 by omega)
    have hlow := hexDigit?_upperHexChar (show c.toNat % 16 < 16 by omega)
    simp only [List.mapM_cons, List.mapM_nil, hzero, hhigh, hlow]
    rfl
  have hcode : [0, 0, c.toNat / 16, c.toNat % 16].foldl (fun n digit => n * 16 + digit) 0 =
      c.toNat := by
    simp only [List.foldl_cons, List.foldl_nil]
    omega
  unfold readCode
  simp only [List.take_succ_cons, List.take_zero, hdigits, Option.bind_eq_bind, Option.bind_some,
    hcode, List.drop_succ_cons, List.drop_zero]
  rw [Char.ofNat_toNat]
  exact if_pos (Bool.and_eq_true_iff.mpr ⟨rfl, decide_eq_true c.valid⟩)

/-- An escape as it is written is read as the character, and it never ends its line; what is not
escaped stands for itself and means nothing else to a reader. One case for each way in which a
character is written. -/
theorem escapeChar_cases (lines : Bool) {c : Char} (hquote : c ≠ '"') :
    (∃ letters, escapeChar lines c = '\\' :: letters ∧ ∀ rest,
      skipLineEnd? (letters ++ rest) = none ∧ readEscape (letters ++ rest) = some (c, rest)) ∨
    escapeChar lines c = [c] ∧ c ≠ '"' ∧ c ≠ '\\' ∧ c ≠ '\r' ∧
      (isTextChar c = true ∨ lines = true ∧ c = '\n') := by
  unfold escapeChar
  -- The characters with an escape of one letter; a line feed is among them only in one line.
  iterate 3 (split; · exact .inl ⟨_, rfl, fun rest => by subst_vars; exact ⟨rfl, rfl⟩⟩)
  split
  · rename_i hline
    split
    · rename_i hlines
      subst hline
      exact .inr ⟨rfl, by decide, by decide, by decide, .inr ⟨hlines, rfl⟩⟩
    · exact .inl ⟨_, rfl, fun rest => by subst_vars; exact ⟨rfl, rfl⟩⟩
  iterate 2 (split; · exact .inl ⟨_, rfl, fun rest => by subst_vars; exact ⟨rfl, rfl⟩⟩)
  split
  · rename_i hcontrol
    exact .inl ⟨_, rfl, fun rest => ⟨rfl, readCode_upperHexChar (lt_of_isControl hcontrol) rest⟩⟩
  · rename_i hbackslash _ _ hline _ hreturn hcontrol
    have htext := isTextChar_of_not_isControl (Bool.eq_false_iff.mpr hcontrol)
    exact .inr ⟨rfl, hquote, hbackslash, hreturn, .inl (htext.resolve_right hline)⟩

/-! ## One line -/

/-- A reader of one line takes an escape for its character. -/
theorem readBasic_escaped {letters rest : List Char} {c : Char} {text : List Char × List Char}
    (hescape : readEscape letters = some (c, rest)) (hrest : readBasic rest = some text) :
    readBasic ('\\' :: letters) = some (c :: text.1, text.2) := by
  rw [readBasic]
  split
  · rename_i hnone
    rw [hescape] at hnone
    cases hnone
  · rename_i hsome
    rw [hescape] at hsome
    cases hsome
    rw [hrest]
    rfl

/-- It takes other characters as they are, if they may stand in a text. -/
theorem readBasic_char {rest : List Char} {c : Char} {text : List Char × List Char}
    (hquote : c ≠ '"') (hbackslash : c ≠ '\\') (hc : isTextChar c = true)
    (hrest : readBasic rest = some text) : readBasic (c :: rest) = some (c :: text.1, text.2) := by
  rw [readBasic.eq_4 _ _ hquote hbackslash, if_pos hc, hrest]
  rfl

/-- A text with escapes in one line is read up to the quote that closes it, by induction on the
text. -/
theorem readBasic_escape (cs rest : List Char) :
    readBasic (escape false 0 0 cs ++ '"' :: rest) = some (cs, rest) := by
  induction cs with
  | nil => rw [escape, List.nil_append, readBasic]
  | cons c cs ih =>
    rw [escape]
    split
    · rename_i hquote
      subst hquote
      exact readBasic_escaped rfl ih
    · rename_i hquote
      rw [List.append_assoc]
      obtain ⟨letters, hwritten, hread⟩ | ⟨hwritten, -, hbackslash, -, htext⟩ :=
        escapeChar_cases false hquote
      · rw [hwritten]
        exact readBasic_escaped (hread _).2 ih
      · rw [hwritten]
        have htext := htext.resolve_right fun h => Bool.false_ne_true h.1
        exact readBasic_char hquote hbackslash htext ih

/-- A text without escapes is, if it has no quotes, line feeds or control characters. -/
theorem readLiteral_append {cs : List Char} (h : fitsLiteral cs = true) (rest : List Char) :
    readLiteral (cs ++ '\'' :: rest) = some (cs, rest) := by
  induction cs with
  | nil => rfl
  | cons c cs ih =>
    obtain ⟨hc, hcs⟩ := Bool.and_eq_true_iff.mp h
    simp only [Bool.and_eq_true, Bool.not_eq_true', bne_iff_ne] at hc
    -- Each of the three is asked of the first character, and of the rest by induction.
    obtain ⟨⟨hcontrol, hquote⟩, hline⟩ := hc
    have htext := (isTextChar_of_not_isControl hcontrol).resolve_right hline
    rw [List.cons_append, readLiteral.eq_3 _ _ hquote, if_pos htext, ih hcs]
    rfl

/-! ## Several lines -/

section

variable {quote : Char} {run : Nat}

/-- At the end of a text up to two quotes of its own stand before the three that close it. What
follows must not be a quote, or there would be more of them. -/
theorem readClosing_quotes (hrun : run ≤ 2) {rest : List Char}
    (hrest : ∀ c ∈ rest.head?, c ≠ quote) :
    readClosing quote (List.replicate run quote ++ quote :: quote :: quote :: rest) =
      some (List.replicate run quote, rest) := by
  cases rest with
  | nil =>
    obtain rfl | rfl | rfl : run = 0 ∨ run = 1 ∨ run = 2 := by omega
    all_goals simp [readClosing, List.replicate_succ]
  | cons d rest =>
    have hd : d ≠ quote := hrest d rfl
    obtain rfl | rfl | rfl : run = 0 ∨ run = 1 ∨ run = 2 := by omega
    · cases rest <;> simp [readClosing, hd]
    · simp [readClosing, hd, List.replicate_succ]
    · simp [readClosing, List.replicate_succ]

/-- Up to two quotes close nothing, if something else follows. -/
theorem readClosing_of_ne (hrun : run ≤ 2) {c : Char} (hc : c ≠ quote) (rest : List Char) :
    readClosing quote (List.replicate run quote ++ c :: rest) = none := by
  obtain rfl | rfl | rfl : run = 0 ∨ run = 1 ∨ run = 2 := by omega
  · match rest with
    | [] | [_] => rfl
    | _ :: _ :: _ => simp [readClosing, hc]
  · match rest with
    | [] => rfl
    | _ :: _ => simp [readClosing, hc, List.replicate_succ]
  · simp [readClosing, hc, List.replicate_succ]

/-- A reader of text over several lines: at a quote it looks whether the text ends, and takes the
quote for part of the text otherwise. Both forms over several lines are read like this, so what
follows is proved once. -/
def ReadsRuns (quote : Char) (read : Reader (List Char)) : Prop :=
  ∀ cs, read (quote :: cs) =
    match readClosing quote (quote :: cs) with
    | some closing => some closing
    | none => (read cs).map fun (text, rest) => (quote :: text, rest)

variable {read : Reader (List Char)}

/-- A run of up to two quotes and the three that close the text are read as the run. -/
theorem ReadsRuns.closing (hread : ReadsRuns quote read) (hrun : run ≤ 2) {rest : List Char}
    (hrest : ∀ c ∈ rest.head?, c ≠ quote) :
    read (List.replicate run quote ++ quote :: quote :: quote :: rest) =
      some (List.replicate run quote, rest) := by
  have hclosing := readClosing_quotes hrun hrest
  cases run with
  | zero =>
    refine (hread _).trans ?_
    rw [List.replicate_zero, List.nil_append] at hclosing
    rw [hclosing]
    rfl
  | succ run =>
    rw [List.replicate_succ, List.cons_append] at hclosing ⊢
    rw [hread, hclosing]

/-- A run of up to two quotes in the middle belongs to the text, whatever is read behind it. -/
theorem ReadsRuns.inside (hread : ReadsRuns quote read) (hrun : run ≤ 2) {c : Char}
    (hc : c ≠ quote) {rest : List Char} {text : List Char × List Char}
    (h : read (c :: rest) = some text) :
    read (List.replicate run quote ++ c :: rest) =
      some (List.replicate run quote ++ text.1, text.2) := by
  induction run with
  | zero => exact h
  -- Each quote of the run is looked at on its own, and none of them closes the text.
  | succ run ih =>
    have hnone := readClosing_of_ne hrun hc rest
    rw [List.replicate_succ, List.cons_append] at hnone ⊢
    rw [hread, hnone, ih (by omega)]
    rfl

/-- The reader with escapes is one of these. -/
theorem readsRuns_basicLines : ReadsRuns '"' readBasicLines := by
  intro cs
  rw [readBasicLines]
  · rfl
  · exact fun h => absurd h (by decide)
  · exact fun _ h => absurd h (by decide)

/-- So is the reader without. -/
theorem readsRuns_literalLines : ReadsRuns '\'' readLiteralLines := by
  intro cs
  rw [readLiteralLines]
  · rfl
  · exact fun _ h => absurd h (by decide)

end

/-- Over several lines an escape is taken for its character, unless it ends its line. -/
theorem readBasicLines_escaped {letters rest : List Char} {c : Char}
    {text : List Char × List Char} (hline : skipLineEnd? letters = none)
    (hescape : readEscape letters = some (c, rest)) (hrest : readBasicLines rest = some text) :
    readBasicLines ('\\' :: letters) = some (c :: text.1, text.2) := by
  rw [readBasicLines]
  split
  · rename_i hsome
    rw [hline] at hsome
    cases hsome
  · split
    · rename_i hnone
      rw [hescape] at hnone
      cases hnone
    · rename_i hsome
      rw [hescape] at hsome
      cases hsome
      rw [hrest]
      rfl

/-- Other characters are taken as they are, line feeds among them. -/
theorem readBasicLines_char {rest : List Char} {c : Char} {text : List Char × List Char}
    (hquote : c ≠ '"') (hbackslash : c ≠ '\\') (hreturn : c ≠ '\r')
    (hc : isTextChar c = true ∨ c = '\n') (hrest : readBasicLines rest = some text) :
    readBasicLines (c :: rest) = some (c :: text.1, text.2) := by
  rw [readBasicLines, if_neg hquote]
  · dsimp only
    rw [if_pos (by simpa using hc), hrest]
    rfl
  · exact hbackslash
  · exact fun _ h => absurd h hreturn

/-- Without escapes they all are. -/
theorem readLiteralLines_char {rest : List Char} {c : Char} {text : List Char × List Char}
    (hquote : c ≠ '\'') (hreturn : c ≠ '\r') (hc : isTextChar c = true ∨ c = '\n')
    (hrest : readLiteralLines rest = some text) :
    readLiteralLines (c :: rest) = some (c :: text.1, text.2) := by
  rw [readLiteralLines, if_neg hquote]
  · dsimp only
    rw [if_pos (by simpa using hc), hrest]
    rfl
  · exact fun _ h => absurd h hreturn

/-- The text of a form with escapes over several lines, from inside a run of quotes on. The
induction is on the text, for a run of any length up to two. -/
theorem readBasicLines_escape {rest : List Char} (hrest : ∀ c ∈ rest.head?, c ≠ '"')
    (cs : List Char) {run : Nat} (hrun : run ≤ 2) :
    readBasicLines
        (List.replicate run '"' ++ (escape true 2 run cs ++ '"' :: '"' :: '"' :: rest)) =
      some (List.replicate run '"' ++ cs, rest) := by
  have hreads := readsRuns_basicLines
  induction cs generalizing run with
  | nil =>
    rw [escape, List.nil_append, List.append_nil]
    exact hreads.closing hrun hrest
  | cons c cs ih =>
    have hnext := ih (Nat.zero_le 2)
    rw [List.replicate_zero, List.nil_append, List.nil_append] at hnext
    rw [escape]
    split
    · rename_i hquote
      subst hquote
      split
      · -- The run is as long as it may be, so the quote is escaped and ends it.
        exact hreads.inside hrun (by decide) (readBasicLines_escaped rfl rfl hnext)
      · -- The quote stands for itself, and the run goes on.
        have hmore := ih (show run + 1 ≤ 2 by omega)
        rw [List.replicate_succ', List.append_assoc, List.append_assoc] at hmore
        exact hmore
    · rename_i hquote
      rw [List.append_assoc]
      obtain ⟨letters, hwritten, hread⟩ | ⟨hwritten, -, hbackslash, hreturn, htext⟩ :=
        escapeChar_cases true hquote
      · rw [hwritten]
        obtain ⟨hline, hescape⟩ := hread (escape true 2 0 cs ++ '"' :: '"' :: '"' :: rest)
        exact hreads.inside hrun (by decide) (readBasicLines_escaped hline hescape hnext)
      · rw [hwritten]
        refine hreads.inside hrun hquote (readBasicLines_char hquote hbackslash hreturn ?_ hnext)
        exact htext.imp_right And.right

/-- The text of a form without escapes over several lines, from inside a run of quotes on. No run in
it is longer than two, which the induction carries along. -/
theorem readLiteralLines_append {rest : List Char} (hrest : ∀ c ∈ rest.head?, c ≠ '\'')
    {cs : List Char} (hcs : ∀ c ∈ cs, isControl c = false) {run : Nat}
    (hrun : longestRun '\'' run cs ≤ 2) :
    readLiteralLines (List.replicate run '\'' ++ (cs ++ '\'' :: '\'' :: '\'' :: rest)) =
      some (List.replicate run '\'' ++ cs, rest) := by
  have hreads := readsRuns_literalLines
  induction cs generalizing run with
  | nil =>
    rw [List.nil_append, List.append_nil]
    exact hreads.closing hrun hrest
  | cons c cs ih =>
    obtain ⟨hc, htail⟩ := List.forall_mem_cons.mp hcs
    rw [longestRun] at hrun
    -- A quote makes the run longer, and anything else ends it.
    split at hrun
    · rename_i hquote
      subst hquote
      have hmore := ih htail hrun
      rw [List.replicate_succ', List.append_assoc, List.append_assoc] at hmore
      exact hmore
    · rename_i hquote
      obtain ⟨hrun, hnext⟩ := Nat.max_le.mp hrun
      have hnext := ih htail hnext
      exact hreads.inside hrun hquote (readLiteralLines_char hquote (not_isControl_return c hc)
        (isTextChar_of_not_isControl hc) hnext)

/-! ## All forms -/

/-- The text can be written in this form: with escapes any text can. -/
def Form.Fits : Form → List Char → Prop
  | .basic, _ | .basicLines, _ => True
  | .literal, cs => fitsLiteral cs = true
  | .literalLines, cs => fitsLiteralLines cs = true

/-- The form that is chosen for a text is one in which it can be written. -/
theorem Form.fits_of (cs : List Char) : (Form.of cs).Fits cs := by
  unfold Form.of
  split
  · trivial
  split
  · assumption
  split
  · trivial
  split
  · assumption
  split
  · trivial
  · trivial

/-- No line end at the front of a text is taken for part of the opening quotes: where there are
lines, one of its own stands before it. -/
theorem dropFirstBreak_firstBreak {cs inner : List Char}
    (h : '\n' ∉ cs → ∀ c ∈ inner.head?, c ≠ '\n' ∧ c ≠ '\r') :
    dropFirstBreak (firstBreak cs ++ inner) = inner := by
  unfold firstBreak
  split
  · rfl
  · rename_i hlines
    have hhead := h fun hline => hlines (List.contains_iff_mem.mpr hline)
    rw [List.nil_append]
    unfold dropFirstBreak
    split
    · exact absurd rfl (hhead '\n' rfl).1
    · exact absurd rfl (hhead '\r' rfl).2
    · rfl

/-- An escaped text begins with the first character of the text only if that needs no escape.
Otherwise it begins with a backslash, or with a quote that may stand for itself. -/
theorem head?_escape {lines : Bool} {most run : Nat} {cs : List Char} :
    ∀ c ∈ (escape lines most run cs).head?, c = '"' ∧ run ≠ most ∨ c = '\\' ∨
      c ∈ cs.head? ∧ c ≠ '"' ∧ c ≠ '\r' := by
  intro c hc
  cases cs with
  | nil => cases hc
  | cons d cs =>
    rw [escape] at hc
    split at hc
    · split at hc
      · exact .inr (.inl (Option.some.inj hc).symm)
      · rename_i hrun
        exact .inl ⟨(Option.some.inj hc).symm, hrun⟩
    · rename_i hquote
      obtain ⟨letters, hwritten, -⟩ | ⟨hwritten, -, -, hreturn, -⟩ := escapeChar_cases lines hquote
      · rw [hwritten] at hc
        exact .inr (.inl (Option.some.inj hc).symm)
      · rw [hwritten] at hc
        cases Option.some.inj hc
        exact .inr (.inr ⟨rfl, hquote, hreturn⟩)

/-- What follows a text that was written does not go on with a quote, which could be taken for part
of its closing. -/
def Unquoted (rest : List Char) : Prop := ∀ c ∈ rest.head?, c ≠ '"' ∧ c ≠ '\''

section

variable {cs rest : List Char}

/-- A text with escapes in one line is read back. -/
theorem readQuoted_basic (hrest : Unquoted rest) :
    readQuoted (Form.basic.write cs ++ rest) = some (cs, rest) := by
  have hwritten : Form.basic.write cs ++ rest = '"' :: (escape false 0 0 cs ++ '"' :: rest) := by
    rw [Form.write, List.cons_append, List.append_assoc]
    rfl
  -- The quotes of an empty text are not the first of three.
  have honce : ∀ more, escape false 0 0 cs ++ '"' :: rest ≠ '"' :: '"' :: more := by
    intro more hmore
    cases hescaped : escape false 0 0 cs with
    | nil =>
      rw [hescaped] at hmore
      have hhead := (List.cons.inj hmore).2
      exact (hrest '"' (hhead ▸ rfl)).1 rfl
    | cons c tail =>
      rw [hescaped] at hmore
      have hc : c = '"' := (List.cons.inj hmore).1
      rcases head?_escape c (hescaped ▸ rfl : c ∈ (escape false 0 0 cs).head?) with
        ⟨-, hrun⟩ | rfl | ⟨-, hquote, -⟩
      · exact hrun rfl
      · exact absurd hc (by decide)
      · exact hquote hc
  rw [hwritten, readQuoted.eq_3 _ honce, readBasic_escape]

/-- A text without escapes in one line is read back, if it fits. -/
theorem readQuoted_literal (hrest : Unquoted rest) (h : fitsLiteral cs = true) :
    readQuoted (Form.literal.write cs ++ rest) = some (cs, rest) := by
  have hwritten : Form.literal.write cs ++ rest = '\'' :: (cs ++ '\'' :: rest) := by
    rw [Form.write, List.cons_append, List.append_assoc]
    rfl
  -- Nor are these, and a text with quotes of its own is not written in this form.
  have honce : ∀ more, cs ++ '\'' :: rest ≠ '\'' :: '\'' :: more := by
    intro more hmore
    cases cs with
    | nil =>
      have hhead := (List.cons.inj hmore).2
      exact (hrest '\'' (hhead ▸ rfl)).2 rfl
    | cons c cs =>
      have hc : c = '\'' := (List.cons.inj hmore).1
      subst hc
      exact absurd (List.all_eq_true.mp h '\'' List.mem_cons_self) (by decide)
  rw [hwritten, readQuoted.eq_4 _ honce, readLiteral_append h]

/-- A text with escapes over several lines is read back. What stands behind the opening quotes is
not the line end that a reader would drop. -/
theorem readQuoted_basicLines (hrest : Unquoted rest) :
    readQuoted (Form.basicLines.write cs ++ rest) = some (cs, rest) := by
  have hwritten : Form.basicLines.write cs ++ rest = '"' :: '"' :: '"' ::
      (firstBreak cs ++ (escape true 2 0 cs ++ '"' :: '"' :: '"' :: rest)) := by
    simp [Form.write]
  have hread := readBasicLines_escape (fun c hc => (hrest c hc).1) cs (Nat.zero_le 2)
  rw [hwritten, readQuoted, dropFirstBreak_firstBreak]
  · exact hread
  · intro hlines c hc
    cases hescaped : escape true 2 0 cs with
    | nil =>
      rw [hescaped] at hc
      cases Option.some.inj hc
      decide
    | cons d tail =>
      rw [hescaped] at hc
      cases Option.some.inj hc
      rcases head?_escape c (hescaped ▸ rfl : c ∈ (escape true 2 0 cs).head?) with
        ⟨rfl, -⟩ | rfl | ⟨hhead, -, hreturn⟩
      · decide
      · decide
      · exact ⟨fun hline => hlines (hline ▸ List.mem_of_mem_head? hhead), hreturn⟩

/-- A text without escapes over several lines is read back, if it fits. -/
theorem readQuoted_literalLines (hrest : Unquoted rest) (h : fitsLiteralLines cs = true) :
    readQuoted (Form.literalLines.write cs ++ rest) = some (cs, rest) := by
  obtain ⟨hcs, hrun⟩ := Bool.and_eq_true_iff.mp h
  have hcs : ∀ c ∈ cs, isControl c = false := by
    simpa using hcs
  have hwritten : Form.literalLines.write cs ++ rest = '\'' :: '\'' :: '\'' ::
      (firstBreak cs ++ (cs ++ '\'' :: '\'' :: '\'' :: rest)) := by
    simp [Form.write]
  have hread := readLiteralLines_append (fun c hc => (hrest c hc).2) hcs (of_decide_eq_true hrun)
  rw [hwritten, readQuoted, dropFirstBreak_firstBreak]
  · exact hread
  · intro hlines c hc
    cases cs with
    | nil =>
      cases Option.some.inj hc
      decide
    | cons d cs =>
      cases Option.some.inj hc
      have hmem : c ∈ c :: cs := List.mem_cons_self
      exact ⟨fun hline => hlines (hline ▸ hmem), not_isControl_return c (hcs c hmem)⟩

/-- **A text that was written is read back**, whatever characters are in it: in the form that was
chosen for it, which fits. -/
theorem readQuoted_writeQuoted (cs : List Char) (hrest : Unquoted rest) :
    readQuoted (writeQuoted cs ++ rest) = some (cs, rest) := by
  have hfits := Form.fits_of cs
  unfold writeQuoted
  cases hform : Form.of cs with
  | basic => exact readQuoted_basic hrest
  | literal =>
    rw [hform] at hfits
    exact readQuoted_literal hrest hfits
  | basicLines => exact readQuoted_basicLines hrest
  | literalLines =>
    rw [hform] at hfits
    exact readQuoted_literalLines hrest hfits

end

/-! ## Keys -/

/-- A bare key, which has no quotes at its front, is read up to what no key goes on with. -/
theorem readSimpleKey_bare {cs rest : List Char} (hne : cs ≠ [])
    (hcs : ∀ c ∈ cs, isKeyChar c = true) (hrest : ∀ c ∈ rest.head?, isKeyChar c = false) :
    readSimpleKey (cs ++ rest) = some (String.ofList cs, rest) := by
  obtain ⟨htake, hdrop⟩ := Text.span_append hcs hrest
  have hquotes : ∀ quote tail, isKeyChar quote = false → cs ++ rest ≠ quote :: tail := by
    intro quote tail hquote hfront
    cases cs with
    | nil => exact hne rfl
    | cons c cs =>
      have hc : isKeyChar c = true := hcs c List.mem_cons_self
      rw [(List.cons.inj hfront).1, hquote] at hc
      cases hc
  have hempty : ¬ cs.isEmpty = true := fun h => hne (List.isEmpty_iff.mp h)
  rw [readSimpleKey.eq_3 _ (fun _ => hquotes '"' _ rfl) (fun _ => hquotes '\'' _ rfl), htake, hdrop,
    if_neg hempty]

/-- **A key that was written is read back**, in front of anything that no key goes on with: bare if
it can be, and in quotes of either kind otherwise. -/
theorem readSimpleKey_writeSimpleKey (key : String) {rest : List Char}
    (hrest : ∀ c ∈ rest.head?, isKeyChar c = false) :
    readSimpleKey (writeSimpleKey key ++ rest) = some (key, rest) := by
  unfold writeSimpleKey
  dsimp only
  split
  · rename_i hbare
    obtain ⟨hne, hall⟩ := Bool.and_eq_true_iff.mp hbare
    have hne : key.toList ≠ [] := by simpa using hne
    rw [readSimpleKey_bare hne (List.all_eq_true.mp hall) hrest, String.ofList_toList]
  split
  · rename_i hliteral
    have hread := readLiteral_append (Bool.and_eq_true_iff.mp hliteral).2 rest
    rw [Form.write, List.cons_append, List.append_assoc]
    show (readLiteral (key.toList ++ '\'' :: rest)).map _ = _
    rw [hread]
    exact congrArg (fun key => some (key, rest)) String.ofList_toList
  · have hread := readBasic_escape key.toList rest
    rw [Form.write, List.cons_append, List.append_assoc]
    show (readBasic (escape false 0 0 key.toList ++ '"' :: rest)).map _ = _
    rw [hread]
    exact congrArg (fun key => some (key, rest)) String.ofList_toList

end CommandCompletion.Toml
