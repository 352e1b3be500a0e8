/-
Which tokens a JSON text is read as.

A text spells tokens (`Spells`) if it is read as them in front of everything that is
parted from it: a number or a word goes on as far as its characters do, so it must not
be followed by one of them. Marks, strings and blanks end by themselves (`Delimits`).
Texts that are put together spell the tokens of their parts one after the other, and
blanks spell none.
-/
import CommandCompletion.Json.Token
import CommandCompletion.Json.Writing
import CommandCompletion.Proofs.WrittenNumbers

set_option autoImplicit false

namespace CommandCompletion.Json

open Text (hexChar hexDigit?_hexChar exists_of_isDigit span_append)

/-! ## Strings -/

/-- The four digits of an escape stand for the control character they were written for. -/
theorem unit?_hexChar {n : Nat} (h : n < 0x20) :
    unit? '0' '0' (hexChar (n / 16)) (hexChar (n % 16)) = some n := by
  have hzero : Text.hexDigit? '0' = some 0 := rfl
  have hhigh := hexDigit?_hexChar (show n / 16 < 16 by omega)
  have hlow := hexDigit?_hexChar (show n % 16 < 16 by omega)
  have hvalue : (0 * 16 + 0) * 256 + n / 16 * 16 + n % 16 = n := by omega
  unfold unit?
  rw [hzero, hhigh, hlow]
  exact congrArg some hvalue

/-- However a character was written, the reader puts that one character to those it has, and goes on
behind it. -/
theorem readString_escapeChar (c : Char) (done : List Piece) (rest : List Char) :
    readString done (escapeChar c ++ rest) = readString (.char c :: done) rest := by
  unfold escapeChar
  -- The seven characters that have an escape of their own.
  iterate 7 (split; · subst_vars; rfl)
  split
  -- The other control characters are written in digits; none of them is half of a pair.
  · rename_i hcontrol
    have hpiece : Piece.ofUnit c.toNat = .char c := by
      have hlow : (0xD800 ≤ c.toNat && c.toNat ≤ 0xDFFF) = false := by
        rw [Bool.and_eq_false_iff]
        exact .inl (decide_eq_false (by omega))
      unfold Piece.ofUnit
      rw [hlow, if_neg Bool.false_ne_true, Char.ofNat_toNat]
    simp only [List.cons_append, List.nil_append, readString, unit?_hexChar hcontrol, hpiece]
  -- The rest are written as they are, and none of them is a quote, a backslash or below the
  -- space.
  · rename_i hquote hbackslash _ _ _ _ _ hprintable
    rw [List.singleton_append, readString.eq_def]
    split <;> simp_all [Nat.not_lt.mpr]

/-- A string that was written is read up to its closing quote. By induction on the text, with the
pieces that were read before left arbitrary. -/
theorem readString_written (text : List Char) (done : List Piece) (rest : List Char) :
    readString done (text.flatMap escapeChar ++ '"' :: rest) =
      some (done.reverse ++ text.map .char, rest) := by
  induction text generalizing done with
  | nil => simp [readString]
  | cons c text ih =>
    rw [List.flatMap_cons, List.append_assoc, readString_escapeChar, ih]
    simp

/-- Pieces that are all characters make up a text; only halves of pairs could be in the way. -/
theorem join_chars (text : List Char) : Piece.join (text.map .char) = some text := by
  induction text with
  | nil => rfl
  | cons c text ih => rw [List.map_cons, Piece.join, ih, Option.map_some]

/-! ## Numbers -/

/-- Digits may stand anywhere in a number. -/
theorem isNumberChar_of_isDigit {c : Char} (h : c.isDigit = true) : isNumberChar c = true := by
  unfold isNumberChar
  rw [h, Bool.true_or]

/-- A run of digits has nothing but characters of numbers in it. -/
theorem forall_of_isDigits {cs : List Char} (h : isDigits cs = true) :
    ∀ c ∈ cs, isNumberChar c = true := by
  intro c hc
  exact isNumberChar_of_isDigit (List.all_eq_true.mp (Bool.and_eq_true_iff.mp h).2 c hc)

/-- What follows the letter of an exponent is a sign and digits, or digits alone. -/
theorem forall_of_isExponent {cs : List Char} (h : isExponent cs = true) :
    ∀ c ∈ cs, isNumberChar c = true := by
  unfold isExponent at h
  split at h
  · exact List.forall_mem_cons.mpr ⟨by decide, forall_of_isDigits h⟩
  · exact List.forall_mem_cons.mpr ⟨by decide, forall_of_isDigits h⟩
  · exact forall_of_isDigits h

/-- The letter of an exponent, small or capital, may stand in a number. -/
theorem isNumberChar_of_letter {c : Char} (h : (c == 'e' || c == 'E') = true) :
    isNumberChar c = true := by
  rcases Bool.or_eq_true_iff.mp h with h | h
  · rw [eq_of_beq h]
    decide
  · rw [eq_of_beq h]
    decide

/-- Behind the whole part a number has a fraction, an exponent, both in this order, or neither; each
is made of characters of numbers. -/
theorem forall_of_isNumberTail {cs : List Char} (h : isNumberTail cs = true) :
    ∀ c ∈ cs, isNumberChar c = true := by
  unfold isNumberTail at h
  split at h
  · exact fun c hc => absurd hc List.not_mem_nil
  · rename_i cs
    obtain ⟨-, h⟩ := Bool.and_eq_true_iff.mp h
    have hfraction : ∀ c ∈ cs.takeWhile Char.isDigit, isNumberChar c = true := fun c hc =>
      isNumberChar_of_isDigit (List.all_eq_true.mp List.all_takeWhile c hc)
    have hrest : ∀ c ∈ cs.dropWhile Char.isDigit, isNumberChar c = true := by
      split at h
      · rename_i hnone
        rw [hnone]
        exact fun c hc => absurd hc List.not_mem_nil
      · rename_i c exponent hsome
        obtain ⟨hletter, hexponent⟩ := Bool.and_eq_true_iff.mp h
        rw [hsome]
        exact List.forall_mem_cons.mpr
          ⟨isNumberChar_of_letter hletter, forall_of_isExponent hexponent⟩
    refine List.forall_mem_cons.mpr ⟨by decide, fun c hc => ?_⟩
    rw [← List.takeWhile_append_dropWhile (p := Char.isDigit) (l := cs)] at hc
    rcases List.mem_append.mp hc with hc | hc
    · exact hfraction c hc
    · exact hrest c hc
  · obtain ⟨hletter, hexponent⟩ := Bool.and_eq_true_iff.mp h
    exact List.forall_mem_cons.mpr
      ⟨isNumberChar_of_letter hletter, forall_of_isExponent hexponent⟩

/-- A number without its sign begins with a digit and has no characters but those of numbers, which
is what the reader of tokens tells a number by. -/
theorem exists_of_isUnsigned {cs : List Char} (h : isUnsigned cs = true) :
    (∃ c tail, cs = c :: tail ∧ c.isDigit = true) ∧ ∀ c ∈ cs, isNumberChar c = true := by
  unfold isUnsigned at h
  split at h
  · exact ⟨⟨_, _, rfl, by decide⟩,
      List.forall_mem_cons.mpr ⟨by decide, forall_of_isNumberTail h⟩⟩
  · obtain ⟨hdigits, htail⟩ := Bool.and_eq_true_iff.mp h
    constructor
    · cases cs with
      | nil => cases hdigits
      | cons c cs =>
        refine ⟨c, cs, rfl, ?_⟩
        cases hc : c.isDigit with
        | true => rfl
        | false =>
          rw [List.takeWhile_cons_of_neg (by rw [hc]; exact Bool.false_ne_true)] at hdigits
          cases hdigits
    · intro c hc
      rw [← List.takeWhile_append_dropWhile (p := Char.isDigit) (l := cs)] at hc
      rcases List.mem_append.mp hc with hc | hc
      · exact forall_of_isDigits hdigits c hc
      · exact forall_of_isNumberTail htail c hc

/-- A number begins with a digit or a dash and has no characters but those of numbers. -/
theorem exists_of_isNumber {cs : List Char} (h : isNumber cs = true) :
    ∃ c tail, cs = c :: tail ∧ (c = '-' ∨ c.isDigit = true) ∧
      ∀ c ∈ tail, isNumberChar c = true := by
  unfold isNumber at h
  split at h
  · exact ⟨_, _, rfl, .inl rfl, (exists_of_isUnsigned h).2⟩
  · obtain ⟨⟨c, tail, rfl, hdigit⟩, hall⟩ := exists_of_isUnsigned h
    exact ⟨c, tail, rfl, .inr hdigit, fun c hc => hall c (List.mem_cons_of_mem _ hc)⟩

/-- The digits of a number are a number of JSON: no zero stands in front of them. This makes the
numbers that are printed here `Writable`. -/
theorem isNumber_repr (n : Nat) : isNumber (toString n).toList = true := by
  have hdigits := Text.isDigit_of_mem_repr (n := n)
  rcases Text.repr_cases n with hzero | ⟨c, tail, hcons, hc⟩
  · rw [hzero]
    rfl
  · rw [hcons] at hdigits ⊢
    have hdash : c ≠ '-' := by
      rintro rfl
      exact absurd (hdigits '-' List.mem_cons_self) (by decide)
    have hend : ∀ c ∈ ([] : List Char).head?, c.isDigit = false := fun _ h => nomatch h
    obtain ⟨htake, hdrop⟩ := span_append hdigits hend
    rw [List.append_nil] at htake hdrop
    have hall : isDigits (c :: tail) = true := List.all_eq_true.mpr hdigits
    have hunsigned : isUnsigned (c :: tail) = true := by
      rw [isUnsigned.eq_2 (c :: tail) fun _ h => hc (List.cons.inj h).1, htake, hdrop, hall]
      rfl
    rw [isNumber.eq_2 (c :: tail) fun _ h => hdash (List.cons.inj h).1, hunsigned]

/-! ## Tokens -/

/-- Nothing at the front of the text can be taken for more of a number or a word. A number and a
word are read as far as they go, so what stands behind one has to be parted from it. -/
def Parted (cs : List Char) : Prop :=
  ∀ c ∈ cs.head?, isNumberChar c = false ∧ c.isAlpha = false

/-- The text is read as these tokens, in front of everything that is parted from it. What follows is
arbitrary, so texts that are put together can be read one after the other. -/
def Spells (text : String) (tokens : List Token) : Prop :=
  ∀ rest, Parted rest →
    Token.ofChars? (text.toList ++ rest) = (Token.ofChars? rest).map (tokens ++ ·)

/-- The text is read as these tokens, in front of everything: it ends by itself, so nothing that
follows can be taken for more of it. -/
def Delimits (text : String) (tokens : List Token) : Prop :=
  ∀ rest, Token.ofChars? (text.toList ++ rest) = (Token.ofChars? rest).map (tokens ++ ·)

/-- The end of the text ends everything. -/
theorem parted_nil : Parted [] := fun _ h => nomatch h

/-- Only the first character counts. -/
theorem parted_cons {c : Char} (h : isNumberChar c = false ∧ c.isAlpha = false)
    (cs : List Char) : Parted (c :: cs) := by
  rintro _ ⟨⟩
  exact h

/-- A text that may be empty is parted if it is or if what follows is. -/
theorem parted_append {cs rest : List Char} (hcs : Parted cs) (hrest : Parted rest) :
    Parted (cs ++ rest) := by
  cases cs with
  | nil => exact hrest
  | cons c cs => exact hcs

section

variable {text before after : String} {first second tokens : List Token}

/-- Tokens that are read one after the other. -/
theorem map_append_map (more : Option (List Token)) :
    (more.map (second ++ ·)).map (first ++ ·) = more.map (first ++ second ++ ·) := by
  rw [Option.map_map]
  refine congrArg (Option.map · more) (funext fun tokens => ?_)
  exact (List.append_assoc first second tokens).symm

/-- What ends by itself needs nothing to part it from what follows. -/
theorem Delimits.spells (h : Delimits text tokens) : Spells text tokens := fun rest _ => h rest

/-- Two texts of which each ends by itself spell their tokens one after the other. -/
theorem Delimits.append (hbefore : Delimits before first) (hafter : Delimits after second) :
    Delimits (before ++ after) (first ++ second) := by
  intro rest
  rw [String.toList_append, List.append_assoc, hbefore, hafter, map_append_map]

/-- Only the last of the parts needs something to end it. -/
theorem Delimits.append_spells (hbefore : Delimits before first) (hafter : Spells after second) :
    Spells (before ++ after) (first ++ second) := by
  intro rest hrest
  rw [String.toList_append, List.append_assoc, hbefore, hafter rest hrest, map_append_map]

/-- Where the first part does not end by itself, the second must begin with something that ends it.
-/
theorem Spells.append (hbefore : Spells before first) (hafter : Spells after second)
    (hparted : Parted after.toList) : Spells (before ++ after) (first ++ second) := by
  intro rest hrest
  rw [String.toList_append, List.append_assoc, hbefore _ (parted_append hparted hrest),
    hafter rest hrest, map_append_map]

/-- Blanks write nothing. -/
theorem delimits_blanks (gap : String) (hgap : ∀ c ∈ gap.toList, isBlank c = true) :
    Delimits gap [] := by
  intro rest
  have hid : (Token.ofChars? rest).map ([] ++ ·) = Token.ofChars? rest := Option.map_id'
  rw [hid]
  generalize gap.toList = cs at hgap
  induction cs with
  | nil => rfl
  | cons c cs ih =>
    obtain ⟨hc, hcs⟩ := List.forall_mem_cons.mp hgap
    rw [List.cons_append, Token.ofChars?, if_pos hc]
    exact ih hcs

/-- The six marks. -/
theorem delimits_marks : Delimits "[" [.openArray] ∧ Delimits "]" [.closeArray] ∧
    Delimits "\x7b" [.openObject] ∧ Delimits "\x7d" [.closeObject] ∧
    Delimits "," [.comma] ∧ Delimits ":" [.colon] := by
  refine ⟨?_, ?_, ?_, ?_, ?_, ?_⟩
  all_goals
    intro rest
    exact Token.ofChars?.eq_def _

/-- What stands between quotes is one token. -/
theorem ofChars?_quoted {inner rest : List Char} {pieces : List Piece}
    (h : readString [] (inner ++ '"' :: rest) = some (pieces, rest)) :
    Token.ofChars? ('"' :: (inner ++ '"' :: rest)) =
      (Token.ofChars? rest).map (.string ((Piece.join pieces).map String.ofList) :: ·) := by
  refine (Token.ofChars?.eq_def _).trans ?_
  -- A quote is no blank and none of the six marks, which are tried before it.
  iterate 7 refine (if_neg (by decide)).trans ?_
  refine (if_pos rfl).trans ?_
  split
  · rename_i hread
    rw [h] at hread
    cases hread
    rfl
  · rename_i hread
    rw [h] at hread
    cases hread

/-- A string ends with its closing quote. What stands between the quotes is read back character by
character, and a string without a text as half of a pair that has no other half. -/
theorem delimits_string (text : Option String) : Delimits (writeString text) [.string text] := by
  intro rest
  cases text with
  | some text =>
    have h := ofChars?_quoted (readString_written text.toList [] rest)
    rw [List.reverse_nil, List.nil_append, join_chars, Option.map_some, String.ofList_toList] at h
    have hwritten : (writeString (some text)).toList ++ rest =
        '"' :: (text.toList.flatMap escapeChar ++ '"' :: rest) := by
      unfold writeString
      rw [String.toList_ofList, List.cons_append, List.append_assoc]
      rfl
    rw [hwritten]
    exact h
  | none =>
    -- A string without a text is written as a surrogate that has no other half.
    have hread : readString [] (['\\', 'u', 'd', '8', '0', '0'] ++ '"' :: rest) =
        some ([.half 0xD800], rest) := by
      have hunit : unit? 'd' '8' '0' '0' = some 0xD800 := by decide
      have hpiece : Piece.ofUnit 0xD800 = .half 0xD800 := by decide
      simp only [List.cons_append, List.nil_append, readString, hunit, hpiece]
      rfl
    exact ofChars?_quoted hread

/-- A word is read up to the end of its letters, so the three words of JSON are read as such in
front of everything that is parted from them. -/
theorem spells_words : Spells "null" [.null] ∧ Spells "true" [.bool true] ∧
    Spells "false" [.bool false] := by
  have letters : ∀ (cs : List Char) {rest : List Char}, (∀ c ∈ cs, c.isAlpha = true) →
      Parted rest →
      (cs ++ rest).takeWhile Char.isAlpha = cs ∧ (cs ++ rest).dropWhile Char.isAlpha = rest :=
    fun cs rest hcs hrest => span_append hcs fun c hc => (hrest c hc).2
  refine ⟨fun rest hrest => ?_, fun rest hrest => ?_, fun rest hrest => ?_⟩
  · have hspan := letters ['u', 'l', 'l'] (List.all_eq_true.mp (by decide)) hrest
    show Token.ofChars? ('n' :: (['u', 'l', 'l'] ++ rest)) = _
    rw [Token.ofChars?]
    simp only [hspan]
    rfl
  · have hspan := letters ['r', 'u', 'e'] (List.all_eq_true.mp (by decide)) hrest
    show Token.ofChars? ('t' :: (['r', 'u', 'e'] ++ rest)) = _
    rw [Token.ofChars?]
    simp only [hspan]
    rfl
  · have hspan := letters ['a', 'l', 's', 'e'] (List.all_eq_true.mp (by decide)) hrest
    show Token.ofChars? ('f' :: (['a', 'l', 's', 'e'] ++ rest)) = _
    rw [Token.ofChars?]
    simp only [hspan]
    rfl

/-- The first character of a number begins nothing else, so all that is tried before a number passes
it by. -/
theorem begins_number {c : Char} (h : c = '-' ∨ c.isDigit = true) :
    isBlank c = false ∧ c.isAlpha = false ∧ c ≠ '[' ∧ c ≠ ']' ∧ c ≠ '\x7b' ∧ c ≠ '\x7d' ∧
      c ≠ ',' ∧ c ≠ ':' ∧ c ≠ '"' := by
  rcases h with rfl | hdigit
  · decide
  · obtain ⟨n, rfl⟩ := exists_of_isDigit hdigit
    revert n
    decide

/-- A number is read up to the end of its characters, and the text is kept as it stands. -/
theorem spells_number {literal : String} (h : isNumber literal.toList = true) :
    Spells literal [.number literal] := by
  intro rest hrest
  obtain ⟨c, tail, hliteral, hfirst, htail⟩ := exists_of_isNumber h
  obtain ⟨htake, hdrop⟩ := span_append htail fun c hc => (hrest c hc).1
  have hwhole : isNumber (c :: tail) = true := hliteral ▸ h
  obtain ⟨hblank, halpha, h1, h2, h3, h4, h5, h6, h7⟩ := begins_number hfirst
  rw [hliteral, List.cons_append, Token.ofChars?]
  simp only [htake, hdrop, hblank, halpha, hwhole, h1, h2, h3, h4, h5, h6, h7, if_false, if_true,
    Bool.false_eq_true]
  rw [← hliteral, String.ofList_toList]
  rfl

end

end CommandCompletion.Json
