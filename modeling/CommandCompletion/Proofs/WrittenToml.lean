/-
TOML documents that were written are read as the statements they were written for.

A part of a document ends where what follows cannot go on with it: a value before a line
end, a comma or a bracket (`EndsValue`), a key before an equals sign or a bracket
(`EndsKey`). So each reader is shown to take exactly its part in front of such a rest, and
the statements of a document follow one after the other (`parse?_write`).

Writing knows more kinds of values than are read back here: `Value.Writable` has the texts,
whole numbers and truth values, and lists of them, that documents of settings are made of.
-/
import CommandCompletion.Proofs.QuotedText

set_option autoImplicit false

namespace CommandCompletion.Toml

/-! ## Numbers and truth values -/

/-- Nothing at the front of the text can be taken for more of a value: it goes on with a line end, a
comma or a bracket, or not at all. -/
def EndsValue (rest : List Char) : Prop := ∀ c ∈ rest.head?, c = '\n' ∨ c = ',' ∨ c = ']'

/-- Only the first character counts. -/
theorem endsValue_cons {c : Char} (h : c = '\n' ∨ c = ',' ∨ c = ']') (rest : List Char) :
    EndsValue (c :: rest) := by
  rintro _ ⟨⟩
  exact h

/-- None of these is a quote. -/
theorem EndsValue.unquoted {rest : List Char} (h : EndsValue rest) : Unquoted rest := by
  intro c hc
  rcases h c hc with rfl | rfl | rfl
  all_goals decide

section

variable {cs rest : List Char}

/-- A run of scalar characters is taken whole. A blank would be looked behind, as dates have one,
but no blank follows. -/
theorem scalarRun_append (hcs : ∀ c ∈ cs, isScalarChar c = true) (hrest : EndsValue rest) :
    scalarRun (cs ++ rest) = (cs, rest) := by
  have hends : ∀ c ∈ rest.head?, isScalarChar c = false := by
    intro c hc
    rcases hrest c hc with rfl | rfl | rfl
    all_goals decide
  obtain ⟨htake, hdrop⟩ := Text.span_append hcs hends
  unfold scalarRun
  rw [htake, hdrop]
  dsimp only
  split
  · exact absurd (hrest ' ' rfl) (by decide)
  · rfl

/-- Digits without underscores are digits that may have some between them. -/
theorem isGrouped_of_digits (hne : cs ≠ []) (hcs : ∀ c ∈ cs, c.isDigit = true) :
    isGrouped Char.isDigit cs = true := by
  induction cs with
  | nil => exact absurd rfl hne
  | cons c cs ih =>
    obtain ⟨hc, htail⟩ := List.forall_mem_cons.mp hcs
    cases cs with
    | nil => exact hc
    | cons d cs =>
      have hd : d ≠ '_' := by
        rintro rfl
        exact absurd (htail '_' List.mem_cons_self) (by decide)
      rw [isGrouped, hc, ih (List.cons_ne_nil d cs) htail, Bool.true_and]
      · exact List.cons_ne_nil _ _
      · exact fun _ h => hd (List.cons.inj h).1

/-- The digits of a number are read as the number: there are no underscores to take out, and no zero
in front. -/
theorem whole?_repr (n : Nat) : whole? (toString n).toList = some n := by
  have hdigits := Text.isDigit_of_mem_repr (n := n)
  have hplain : ungrouped (toString n).toList = (toString n).toList := by
    refine List.filter_eq_self.mpr fun c hc => bne_iff_ne.mpr ?_
    rintro rfl
    exact absurd (hdigits '_' hc) (by decide)
  have hwhole : isWhole (toString n).toList = true := by
    unfold isWhole
    rcases Text.repr_cases n with hzero | ⟨c, tail, hcons, hc⟩
    · rw [hzero]
      rfl
    · rw [hcons] at hdigits ⊢
      rw [isGrouped_of_digits (List.cons_ne_nil c tail) hdigits, Bool.true_and]
      refine Bool.or_eq_true_iff.mpr (.inl (bne_iff_ne.mpr fun h => hc ?_))
      exact Option.some.inj h
  unfold whole?
  rw [if_pos hwhole, hplain, Text.digitsValue_repr]

/-- The digits of a number have neither a sign nor the mark of another number system. -/
theorem integer?_repr (n : Nat) : integer? (toString n).toList = some (n : Int) := by
  have hdigits := Text.isDigit_of_mem_repr (n := n)
  have hwhole := whole?_repr n
  have hforeign : ∀ c ∈ ['x', 'o', 'b', '+', '-'], c ∉ (toString n).toList := by
    have hnone : ['x', 'o', 'b', '+', '-'].all (! ·.isDigit) = true := by decide
    intro c hc hmem
    have hc := List.all_eq_true.mp hnone c hc
    rw [hdigits c hmem] at hc
    exact absurd hc (by decide)
  generalize (toString n).toList = cs at *
  -- In every case but the last the text would contain one of these characters.
  unfold integer?
  split
  · exact absurd (.tail _ (.head _)) (hforeign 'x' (by decide))
  · exact absurd (.tail _ (.head _)) (hforeign 'o' (by decide))
  · exact absurd (.tail _ (.head _)) (hforeign 'b' (by decide))
  · exact absurd (.head _) (hforeign '+' (by decide))
  · exact absurd (.head _) (hforeign '-' (by decide))
  · rw [hwhole]
    rfl

/-- So the digits are read as a whole number, and not as a word: each of the words has an `e`. -/
theorem scalar?_repr (n : Nat) : scalar? (toString n).toList = some (.integer n) := by
  have hdigits := Text.isDigit_of_mem_repr (n := n)
  have hword : ∀ word : List Char, 'e' ∈ word → ((toString n).toList == word) = false := by
    intro word hmem
    refine beq_eq_false_iff_ne.mpr fun h => ?_
    exact absurd (hdigits 'e' (h ▸ hmem)) (by decide)
  unfold scalar?
  rw [hword _ (by decide), hword _ (by decide), if_neg Bool.false_ne_true,
    if_neg Bool.false_ne_true, integer?_repr]

end

/-! ## Values -/

/-- A value without brackets, of the kinds that settings have (specification, § E1.3). -/
inductive Value.Flat : Value → Prop where
  | text (text : String) : Flat (.text text)
  | integer (n : Nat) : Flat (.integer n)
  | bool (value : Bool) : Flat (.bool value)

/-- A flat value, or a list of flat values. -/
inductive Value.Writable : Value → Prop where
  | flat {value : Value} (h : Flat value) : Writable value
  | array {items : List Value} (h : ∀ item ∈ items, Flat item) : Writable (.array .closed items)

/-- What a key or a flat value begins with: a quote, or something without quotes. Blanks, line ends,
commas, brackets and marks are none of these, so it can be told from them. -/
def Begins (c : Char) : Prop :=
  c = '"' ∨ c = '\'' ∨ isKeyChar c = true

instance : DecidablePred Begins := fun c =>
  inferInstanceAs (Decidable (c = '"' ∨ c = '\'' ∨ isKeyChar c = true))

/-- So it is none of the characters between the parts of a document, and no bracket. -/
theorem Begins.ne {c d : Char} (h : Begins c) (hd : ¬ Begins d) : c ≠ d :=
  fun hcd => hd (hcd ▸ h)

/-- A text begins with a quote, in each of its forms. -/
theorem begins_writeQuoted (cs : List Char) : ∃ c tail, writeQuoted cs = c :: tail ∧
    (c = '"' ∨ c = '\'') := by
  unfold writeQuoted Form.write
  cases Form.of cs with
  | basic => exact ⟨_, _, rfl, .inl rfl⟩
  | literal => exact ⟨_, _, rfl, .inr rfl⟩
  | basicLines => exact ⟨_, _, rfl, .inl rfl⟩
  | literalLines => exact ⟨_, _, rfl, .inr rfl⟩

/-- A text is read back as a value, in front of whatever ends a value. -/
theorem readPlain_writeQuoted (text : String) {rest : List Char} (hrest : EndsValue rest) :
    readPlain (writeQuoted text.toList ++ rest) = some (.text text, rest) := by
  have hread := readQuoted_writeQuoted text.toList hrest.unquoted
  obtain ⟨c, tail, hwritten, hc⟩ := begins_writeQuoted text.toList
  rw [hwritten, List.cons_append] at hread ⊢
  rcases hc with rfl | rfl
  · rw [readPlain, hread]
    exact congrArg (fun text => some (Value.text text, rest)) String.ofList_toList
  · rw [readPlain, hread]
    exact congrArg (fun text => some (Value.text text, rest)) String.ofList_toList

/-- A run of scalar characters is read as the value that it spells, since it begins with no quote.
-/
theorem readPlain_scalar {c : Char} {tail rest : List Char} {value : Value}
    (hcs : ∀ d ∈ c :: tail, isScalarChar d = true) (hrest : EndsValue rest)
    (hvalue : scalar? (c :: tail) = some value) :
    readPlain (c :: tail ++ rest) = some (value, rest) := by
  have hread : readScalar (c :: tail ++ rest) = some (value, rest) := by
    unfold readScalar
    rw [scalarRun_append hcs hrest]
    dsimp only
    rw [hvalue]
    rfl
  have hc : isScalarChar c = true := hcs c List.mem_cons_self
  rw [← hread, List.cons_append]
  unfold readPlain
  split
  · rename_i heq
    rw [(List.cons.inj heq).1] at hc
    exact absurd hc (by decide)
  · rename_i heq
    rw [(List.cons.inj heq).1] at hc
    exact absurd hc (by decide)
  · rfl

/-- Digits may stand in a key without quotes. -/
theorem isKeyChar_of_isDigit {c : Char} (h : c.isDigit = true) : isKeyChar c = true := by
  simp [isKeyChar, Char.isAlphanum, h]

/-- They may stand in a scalar too. -/
theorem isScalarChar_of_isDigit {c : Char} (h : c.isDigit = true) : isScalarChar c = true := by
  simp [isScalarChar, Char.isAlphanum, h]

/-- A flat value begins with no bracket, and it is read back. One case for each kind of flat value.
-/
theorem Value.Flat.readPlain {value : Value} (h : value.Flat) :
    (∃ c tail, value.write = c :: tail ∧ Begins c) ∧ ∀ rest, EndsValue rest →
      Toml.readPlain (value.write ++ rest) = some (value, rest) := by
  cases h with
  | text text =>
    obtain ⟨c, tail, hwritten, hc⟩ := begins_writeQuoted text.toList
    refine ⟨⟨c, tail, hwritten, hc.imp_right .inl⟩, fun rest hrest => ?_⟩
    exact readPlain_writeQuoted text hrest
  | integer n =>
    have hdigits := Text.isDigit_of_mem_repr (n := n)
    have hvalue := scalar?_repr n
    obtain ⟨c, tail, hcons⟩ := List.exists_cons_of_ne_nil (Text.repr_ne_nil n)
    rw [hcons] at hdigits hvalue
    have hwritten : (Value.integer n).write = c :: tail := hcons
    have hc := isKeyChar_of_isDigit (hdigits c List.mem_cons_self)
    rw [hwritten]
    exact ⟨⟨c, tail, rfl, .inr (.inr hc)⟩, fun rest hrest =>
      readPlain_scalar (fun d hd => isScalarChar_of_isDigit (hdigits d hd)) hrest hvalue⟩
  | bool value =>
    cases value with
    | true =>
      have hread := @readPlain_scalar 't' ['r', 'u', 'e']
      exact ⟨⟨_, _, rfl, .inr (.inr rfl)⟩, fun rest hrest =>
        hread (List.all_eq_true.mp (by decide)) hrest rfl⟩
    | false =>
      have hread := @readPlain_scalar 'f' ['a', 'l', 's', 'e']
      exact ⟨⟨_, _, rfl, .inr (.inr rfl)⟩, fun rest hrest =>
        hread (List.all_eq_true.mp (by decide)) hrest rfl⟩

/-- What a part begins with is no blank. -/
theorem Begins.not_isBlank {c : Char} (h : Begins c) : ¬ isBlank c = true := by
  unfold isBlank
  rw [Bool.or_eq_true, beq_iff_eq, beq_iff_eq, not_or]
  exact ⟨h.ne (by decide), h.ne (by decide)⟩

/-- Between the parts of a document there is nothing left to pass over, once a part begins. -/
theorem skipGap_of_begins {c : Char} (h : Begins c) (rest : List Char) :
    skipGap false (c :: rest) = some (c :: rest) := by
  rw [skipGap]
  · rw [if_neg Bool.false_ne_true, if_neg h.not_isBlank, if_neg (h.ne (by decide))]
  · exact h.ne (by decide)
  · exact fun _ hreturn => absurd hreturn (h.ne (by decide))

/-- A flat value is read back on every level, as it opens none. -/
theorem readValue_flat {value : Value} (h : value.Flat) (levels : Nat) (rest : List Char)
    (hrest : EndsValue rest) : readValue levels (value.write ++ rest) = some (value, rest) := by
  obtain ⟨⟨c, tail, hwritten, hc⟩, hread⟩ := h.readPlain
  rw [← hread rest hrest, hwritten, List.cons_append]
  cases levels with
  | zero => rfl
  | succ levels =>
    rw [readValue]
    · exact fun h => nomatch h
    · exact fun _ _ _ h => hc.ne (by decide) (List.cons.inj h).1
    · exact fun _ _ _ h => hc.ne (by decide) (List.cons.inj h).1

/-! ## Lists -/

section

variable {α : Type} {read : Reader α} {item : α} {items : List α} {cs inner rest : List Char}
  {c : Char}

/-- The items end with the bracket, possibly after a comma and some space. -/
theorem readItems_end (rounds : Nat) (hgap : skipGap false cs = some (']' :: rest)) :
    readItems ']' read (rounds + 1) cs = some ([], rest) := by
  rw [readItems, hgap]
  rfl

/-- The last item stands in front of the bracket. -/
theorem readItems_last (rounds : Nat) (hgap : skipGap false cs = some (c :: inner)) (hc : c ≠ ']')
    (hread : read (c :: inner) = some (item, ']' :: rest)) :
    readItems ']' read (rounds + 1) cs = some ([item], rest) := by
  rw [readItems, hgap]
  show (if c = ']' then _ else _) = _
  rw [if_neg hc, hread]
  rfl

/-- Any other item stands in front of a comma, and what follows the comma is read in the same way.
-/
theorem readItems_comma {rounds : Nat} (hgap : skipGap false cs = some (c :: inner)) (hc : c ≠ ']')
    (hread : read (c :: inner) = some (item, ',' :: rest)) {more : List Char}
    (hrest : readItems ']' read rounds rest = some (items, more)) :
    readItems ']' read (rounds + 1) cs = some (item :: items, more) := by
  rw [readItems, hgap]
  show (if c = ']' then _ else _) = _
  rw [if_neg hc, hread]
  show (readItems ']' read rounds rest).bind _ = _
  rw [hrest]
  rfl

end

/-- The items are written one by one. -/
theorem writeEach_eq (items : List Value) : writeEach items = items.map Value.write := by
  induction items with
  | nil => rfl
  | cons item items ih => rw [writeEach, ih, List.map_cons]

/-- An item on a line of its own, with a comma behind it. -/
def itemLine (item : List Char) : List Char := "    ".toList ++ item ++ [',', '\n']

/-- Items on lines of their own are read one by one up to the bracket, by induction on the items.
The reader counts rounds, of which it needs one for each item. -/
theorem readItems_lines {items : List Value} (h : ∀ item ∈ items, item.Flat) (levels : Nat)
    {rounds : Nat} (hrounds : items.length < rounds) (rest : List Char) :
    readItems ']' (fun cs => readValue levels cs) rounds
        ('\n' :: ((items.map Value.write).flatMap itemLine ++ ']' :: rest)) =
      some (items, rest) := by
  induction items generalizing rounds with
  | nil =>
    obtain ⟨rounds, rfl⟩ := Nat.exists_eq_succ_of_ne_zero (Nat.ne_of_gt hrounds)
    exact readItems_end rounds rfl
  | cons item items ih =>
    obtain ⟨rounds, rfl⟩ := Nat.exists_eq_succ_of_ne_zero (Nat.ne_of_gt (Nat.zero_lt_of_lt hrounds))
    obtain ⟨hitem, hitems⟩ := List.forall_mem_cons.mp h
    have hmore := ih hitems (Nat.lt_of_succ_lt_succ hrounds)
    obtain ⟨⟨c, tail, hwritten, hc⟩, -⟩ := hitem.readPlain
    -- The item ends with its comma; the line end behind that is passed over with the next.
    have hread := readValue_flat hitem levels (',' :: '\n' ::
      ((items.map Value.write).flatMap itemLine ++ ']' :: rest)) (endsValue_cons (by decide) _)
    rw [hwritten, List.cons_append] at hread
    refine readItems_comma ?_ (hc.ne (by decide)) hread hmore
    rw [List.map_cons, List.flatMap_cons, hwritten]
    simp only [itemLine, List.append_assoc]
    exact skipGap_of_begins hc _

/-- There are no more items than characters. -/
theorem length_le_lines (items : List (List Char)) :
    items.length ≤ (items.flatMap itemLine).length := by
  induction items with
  | nil => exact Nat.le_refl 0
  | cons item items ih =>
    rw [List.flatMap_cons, List.length_append, List.length_cons, itemLine, List.length_append]
    have hbreak : [',', '\n'].length = 2 := rfl
    omega

/-- A list that was written is read back, however many items it has: none and one stand on the line
of the brackets, more on lines of their own. -/
theorem readValue_array {items : List Value} (h : ∀ item ∈ items, item.Flat) (levels : Nat)
    (rest : List Char) :
    readValue (levels + 1) ((Value.array .closed items).write ++ rest) =
      some (.array .closed items, rest) := by
  have hbrackets : ∀ cs, (readItems ']' (fun cs => readValue levels cs) (cs.length + 1) cs) =
      some (items, rest) →
      readValue (levels + 1) ('[' :: cs) = some (.array .closed items, rest) := by
    intro cs hread
    rw [readValue, hread]
    rfl
  rw [Value.write, writeEach_eq]
  match items with
  | [] => exact hbrackets (']' :: rest) (readItems_end _ rfl)
  | [item] =>
    have hitem := List.forall_mem_singleton.mp h
    obtain ⟨⟨c, tail, hwritten, hc⟩, -⟩ := hitem.readPlain
    have hread := readValue_flat hitem levels (']' :: rest) (endsValue_cons (by decide) _)
    rw [hwritten, List.cons_append] at hread
    rw [List.map_singleton, writeItems, List.cons_append, List.append_assoc, hwritten]
    exact hbrackets _ (readItems_last _ (skipGap_of_begins hc _) (hc.ne (by decide)) hread)
  | first :: second :: items =>
    have hwritten : writeItems ((first :: second :: items).map Value.write) ++ rest = '[' :: '\n' ::
        (((first :: second :: items).map Value.write).flatMap itemLine ++ ']' :: rest) := by
      rw [List.map_cons, List.map_cons, writeItems, List.append_assoc, List.append_assoc]
      · rfl
      · exact fun h => nomatch h
      · exact fun _ h => nomatch h
    -- The reader has a round for every character, so for every item.
    have hlength := length_le_lines ((first :: second :: items).map Value.write)
    rw [List.length_map] at hlength
    rw [hwritten]
    refine hbrackets _ (readItems_lines h levels ?_ rest)
    show (first :: second :: items).length < (_ ++ ']' :: rest).length + 1 + 1
    rw [List.length_append]
    omega

/-- Every value of these kinds is read back, within the levels that a document may nest. -/
theorem readValue_write {value : Value} (h : value.Writable) {rest : List Char}
    (hrest : EndsValue rest) : readValue maxLevels (value.write ++ rest) = some (value, rest) := by
  cases h with
  | flat h => exact readValue_flat h maxLevels rest hrest
  | array h => exact readValue_array h (maxLevels - 1) rest

/-! ## Keys -/

/-- Nothing at the front of the text can be taken for more of a key: it goes on with the equals sign
of an assignment or the bracket of a header. -/
def EndsKey (rest : List Char) : Prop := ∃ more, rest = ' ' :: '=' :: more ∨ rest = ']' :: more

/-- A key begins with a quote or with one of its characters, so it is not empty. -/
theorem begins_writeSimpleKey (key : String) :
    ∃ c tail, writeSimpleKey key = c :: tail ∧ Begins c := by
  unfold writeSimpleKey
  dsimp only
  split
  · rename_i hbare
    obtain ⟨hne, hall⟩ := Bool.and_eq_true_iff.mp hbare
    cases hkey : key.toList with
    | nil =>
      rw [hkey] at hne
      cases hne
    | cons c tail =>
      exact ⟨c, tail, rfl, .inr (.inr (List.all_eq_true.mp hall c (hkey ▸ List.mem_cons_self)))⟩
  split
  · exact ⟨_, _, rfl, .inr (.inl rfl)⟩
  · exact ⟨_, _, rfl, .inl rfl⟩

/-- There are no blanks in front of it. -/
theorem skipBlanks_of_begins {c : Char} (h : Begins c) (rest : List Char) :
    skipBlanks (c :: rest) = c :: rest :=
  List.dropWhile_cons_of_neg h.not_isBlank

/-- A dotted key is its first name, a dot and the rest. -/
theorem writeKey_cons (name : String) (path : List String) (key : String) :
    writeKey (name :: path) key = writeSimpleKey name ++ '.' :: writeKey path key := by
  unfold writeKey
  rw [List.flatMap_cons, List.append_assoc, List.append_assoc]
  rfl

/-- A dotted key begins as its first name does. -/
theorem begins_writeKey (path : List String) (key : String) :
    ∃ c tail, writeKey path key = c :: tail ∧ Begins c := by
  cases path with
  | nil => exact begins_writeSimpleKey key
  | cons name path =>
    obtain ⟨c, tail, hwritten, hc⟩ := begins_writeSimpleKey name
    rw [writeKey_cons, hwritten]
    exact ⟨c, _, rfl, hc⟩

section

variable {first name key : String} {path : List String} {rounds : Nat} {rest : List Char}

/-- Without a dot the key ends, and blanks behind it are passed over. -/
theorem readKeysFrom_end (hrest : EndsKey rest) :
    readKeysFrom rounds first rest = some (([], first), skipBlanks rest) := by
  have hhead : ∀ more, skipBlanks rest ≠ '.' :: more := by
    obtain ⟨more, rfl | rfl⟩ := hrest
    · exact fun _ h => nomatch h
    · exact fun _ h => nomatch h
  rw [readKeysFrom.eq_def]
  split
  · rename_i hdot
    exact absurd hdot (hhead _)
  · rfl

/-- With a dot it goes on with another name. -/
theorem readKeysFrom_dot {inner : List Char}
    (hname : readSimpleKey (skipBlanks inner) = some (name, rest))
    {more : List Char} (hrest : readKeysFrom rounds name rest = some ((path, key), more)) :
    readKeysFrom (rounds + 1) first ('.' :: inner) = some ((first :: path, key), more) := by
  rw [readKeysFrom.eq_def]
  show (readSimpleKey (skipBlanks inner)).bind _ = _
  rw [hname]
  show (readKeysFrom rounds name rest).bind _ = _
  rw [hrest]
  rfl

/-- A key is read behind a dot as it is at the front. -/
theorem readSimpleKey_skipBlanks (name : String) (hrest : ∀ c ∈ rest.head?, isKeyChar c = false) :
    readSimpleKey (skipBlanks (writeSimpleKey name ++ rest)) = some (name, rest) := by
  obtain ⟨c, tail, hwritten, hc⟩ := begins_writeSimpleKey name
  have hread := readSimpleKey_writeSimpleKey name hrest
  rw [hwritten, List.cons_append] at hread ⊢
  rw [skipBlanks_of_begins hc]
  exact hread

/-- What ends a key is no character of one. -/
theorem EndsKey.not_isKeyChar (h : EndsKey rest) : ∀ c ∈ rest.head?, isKeyChar c = false := by
  obtain ⟨more, rfl | rfl⟩ := h
  · rintro _ ⟨⟩
    rfl
  · rintro _ ⟨⟩
    rfl

/-- The keys after the first are read up to what ends the key. By induction on the path, with a
round for each of its names. -/
theorem readKeysFrom_writeKey (hrest : EndsKey rest) (hrounds : path.length < rounds) :
    readKeysFrom rounds first ('.' :: (writeKey path key ++ rest)) =
      some ((first :: path, key), skipBlanks rest) := by
  induction path generalizing first rounds with
  | nil =>
    obtain ⟨rounds, rfl⟩ := Nat.exists_eq_succ_of_ne_zero (Nat.ne_of_gt hrounds)
    exact readKeysFrom_dot (readSimpleKey_skipBlanks key hrest.not_isKeyChar)
      (readKeysFrom_end hrest)
  | cons name path ih =>
    obtain ⟨rounds, rfl⟩ := Nat.exists_eq_succ_of_ne_zero (Nat.ne_of_gt (Nat.zero_lt_of_lt hrounds))
    rw [writeKey_cons, List.append_assoc]
    refine readKeysFrom_dot (readSimpleKey_skipBlanks name ?_) (ih (Nat.lt_of_succ_lt_succ hrounds))
    rintro _ ⟨⟩
    rfl

/-- A key has more characters than names in its path. -/
theorem length_le_writeKey (path : List String) (key : String) :
    path.length < (writeKey path key).length := by
  induction path with
  | nil =>
    obtain ⟨c, tail, hwritten, -⟩ := begins_writeKey [] key
    rw [hwritten]
    exact Nat.zero_lt_succ _
  | cons name path ih =>
    rw [writeKey_cons, List.length_append, List.length_cons, List.length_cons]
    omega

/-- **A dotted key that was written is read back**, with the blank behind it, if its path is not
longer than documents may nest. -/
theorem readKey_writeKey (path : List String) (key : String) (hpath : path.length < maxLevels)
    (hrest : EndsKey rest) :
    readKey (writeKey path key ++ rest) = some ((path, key), skipBlanks rest) := by
  have hkeys : ∃ first inner, readSimpleKey (skipBlanks (writeKey path key ++ rest)) =
      some (first, inner) ∧
      readKeysFrom inner.length first inner = some ((path, key), skipBlanks rest) := by
    cases path with
    | nil =>
      exact ⟨key, rest, readSimpleKey_skipBlanks key hrest.not_isKeyChar, readKeysFrom_end hrest⟩
    | cons name path =>
      rw [writeKey_cons, List.append_assoc]
      refine ⟨name, _, readSimpleKey_skipBlanks name ?_, readKeysFrom_writeKey hrest ?_⟩
      · rintro _ ⟨⟩
        rfl
      · have hlength := length_le_writeKey path key
        rw [List.cons_append, List.length_cons, List.length_append]
        omega
  obtain ⟨first, inner, hfirst, hmore⟩ := hkeys
  unfold readKey
  rw [hfirst]
  show (readKeysFrom inner.length first inner).bind _ = _
  rw [hmore]
  exact if_pos hpath

end

/-! ## Statements -/

/-- Of the kinds that a document of settings has: headers and assignments of flat values and lists,
with paths that may be followed. -/
inductive Statement.Writable : Statement → Prop where
  | header {path : List String} (hpath : path.length < maxLevels) (key : String) :
    Writable (.header path key)
  | assignment {path : List String} (hpath : path.length < maxLevels) (key : String)
    {value : Value} (hvalue : value.Writable) : Writable (.assignment path key value)

/-- A statement begins with a bracket or with a key. -/
theorem Statement.Writable.begins {statement : Statement} (h : statement.Writable) :
    ∃ c tail, statement.write = c :: tail ∧ (c = '[' ∨ Begins c) := by
  cases h with
  | header hpath key => exact ⟨_, _, rfl, .inl rfl⟩
  | @assignment path hpath key value hvalue =>
    obtain ⟨c, tail, hwritten, hc⟩ := begins_writeKey path key
    rw [Statement.write, hwritten]
    exact ⟨c, _, rfl, .inr hc⟩

/-- No blank stands before a value. -/
theorem skipBlanks_write {value : Value} (h : value.Writable) (rest : List Char) :
    skipBlanks (value.write ++ rest) = value.write ++ rest := by
  cases h with
  | flat h =>
    obtain ⟨⟨c, tail, hwritten, hc⟩, -⟩ := h.readPlain
    rw [hwritten]
    exact skipBlanks_of_begins hc _
  | @array items h =>
    rw [Value.write]
    cases writeEach items with
    | nil => rfl
    | cons item items => cases items <;> rfl

/-- A header is read up to the end of its line. It is told from the header of a list of tables by
what its key begins with. -/
theorem readStatement_header {path : List String} (hpath : path.length < maxLevels) (key : String)
    (rest : List Char) : readStatement ((Statement.header path key).write ++ rest) =
      some (.header path key, '\n' :: rest) := by
  obtain ⟨c, tail, hwritten, hc⟩ := begins_writeKey path key
  have hread := readKey_writeKey path key hpath ⟨'\n' :: rest, .inr rfl⟩
  have htext : (Statement.header path key).write ++ rest =
      '[' :: (writeKey path key ++ ']' :: '\n' :: rest) := by simp [Statement.write]
  rw [hwritten, List.cons_append] at hread htext
  rw [htext, readStatement]
  · show (readKey _).bind _ = _
    rw [hread]
    rfl
  · exact fun _ h => hc.ne (by decide) (List.cons.inj h).1

/-- An assignment is read up to the end of its line: the key up to the equals sign, and the value up
to the line end. -/
theorem readStatement_assignment {path : List String} (hpath : path.length < maxLevels)
    (key : String) {value : Value} (hvalue : value.Writable) (rest : List Char) :
    readStatement ((Statement.assignment path key value).write ++ rest) =
      some (.assignment path key value, '\n' :: rest) := by
  obtain ⟨c, tail, hwritten, hc⟩ := begins_writeKey path key
  have hkey := readKey_writeKey path key hpath ⟨' ' :: (value.write ++ '\n' :: rest), .inl rfl⟩
  have hread := readValue_write hvalue (endsValue_cons (.inl rfl) rest)
  have hblank : skipBlanks (' ' :: (value.write ++ '\n' :: rest)) = value.write ++ '\n' :: rest :=
    skipBlanks_write hvalue _
  have htext : (Statement.assignment path key value).write ++ rest =
      writeKey path key ++ ' ' :: '=' :: ' ' :: (value.write ++ '\n' :: rest) := by
    simp [Statement.write]
  have hpair : readPair (fun cs => some (skipBlanks cs)) (readValue maxLevels)
      (writeKey path key ++ ' ' :: '=' :: ' ' :: (value.write ++ '\n' :: rest)) =
        some (((path, key), value), '\n' :: rest) := by
    unfold readPair
    rw [hkey]
    show (readValue maxLevels (skipBlanks (' ' :: (value.write ++ '\n' :: rest)))).bind _ = _
    rw [hblank, hread]
    rfl
  rw [hwritten, List.cons_append] at hpair htext
  rw [htext, readStatement]
  · show (readPair _ _ _).bind _ = _
    rw [hpair]
    rfl
  · exact fun _ h => hc.ne (by decide) (List.cons.inj h).1
  · exact fun _ h => hc.ne (by decide) (List.cons.inj h).1

/-- A statement is read up to the end of its line. -/
theorem readStatement_write {statement : Statement} (h : statement.Writable) (rest : List Char) :
    readStatement (statement.write ++ rest) = some (statement, '\n' :: rest) := by
  cases h with
  | header hpath key => exact readStatement_header hpath key rest
  | assignment hpath key hvalue => exact readStatement_assignment hpath key hvalue rest

/-! ## Documents -/

/-- What stands between two statements, and the second one: an empty line before a header. -/
def nextStatement (statement : Statement) : List Char :=
  (if statement.isHeader then ['\n'] else []) ++ statement.write

/-- In front of a statement there is nothing to pass over. -/
theorem skipGap_write {statement : Statement} (h : statement.Writable) (rest : List Char) :
    skipGap false (statement.write ++ rest) = some (statement.write ++ rest) := by
  obtain ⟨c, tail, hwritten, rfl | hc⟩ := h.begins
  · rw [hwritten]
    rfl
  · rw [hwritten]
    exact skipGap_of_begins hc _

/-- A statement is read, and what follows it is read in the same way. -/
theorem statements?_cons {statement : Statement} (h : statement.Writable) {cs rest : List Char}
    {statements : List Statement} {rounds : Nat}
    (hgap : skipGap false cs = some (statement.write ++ rest))
    (hrest : statements? rounds rest = some statements) :
    statements? (rounds + 1) cs = some (statement :: statements) := by
  obtain ⟨c, tail, hwritten, -⟩ := h.begins
  have hread := readStatement_write h rest
  rw [hwritten, List.cons_append] at hread hgap
  rw [statements?, hgap]
  show (readStatement (c :: (tail ++ rest))).bind _ = _
  rw [hread]
  show (statements? rounds rest).bind _ = _
  rw [hrest]
  rfl

/-- The statements after the first are read one by one, by induction on them, with a round for each.
-/
theorem statements?_following {statements : List Statement}
    (h : ∀ statement ∈ statements, statement.Writable) {rounds : Nat}
    (hrounds : statements.length < rounds) :
    statements? rounds (statements.flatMap nextStatement) = some statements := by
  induction statements generalizing rounds with
  | nil =>
    obtain ⟨rounds, rfl⟩ := Nat.exists_eq_succ_of_ne_zero (Nat.ne_of_gt hrounds)
    rfl
  | cons statement statements ih =>
    obtain ⟨rounds, rfl⟩ := Nat.exists_eq_succ_of_ne_zero (Nat.ne_of_gt (Nat.zero_lt_of_lt hrounds))
    obtain ⟨hstatement, hstatements⟩ := List.forall_mem_cons.mp h
    refine statements?_cons hstatement ?_ (ih hstatements (Nat.lt_of_succ_lt_succ hrounds))
    have hgap := skipGap_write hstatement (statements.flatMap nextStatement)
    rw [List.flatMap_cons, nextStatement]
    split
    · exact hgap
    · exact hgap

/-- There are no more statements than characters, so the rounds suffice. -/
theorem length_le_following {statements : List Statement}
    (h : ∀ statement ∈ statements, statement.Writable) :
    statements.length ≤ (statements.flatMap nextStatement).length := by
  induction statements with
  | nil => exact Nat.le_refl 0
  | cons statement statements ih =>
    obtain ⟨hstatement, hstatements⟩ := List.forall_mem_cons.mp h
    obtain ⟨c, tail, hwritten, -⟩ := hstatement.begins
    have hmore := ih hstatements
    rw [List.flatMap_cons, nextStatement, hwritten]
    simp only [List.length_append, List.length_cons]
    omega

/-- The statements of a document are read back. -/
theorem statements?_write {statements : List Statement}
    (h : ∀ statement ∈ statements, statement.Writable) :
    statements? ((write statements).length + 1) (write statements) = some statements := by
  cases statements with
  | nil => rfl
  | cons first following =>
    obtain ⟨hfirst, hfollowing⟩ := List.forall_mem_cons.mp h
    obtain ⟨c, tail, hwritten, -⟩ := hfirst.begins
    have hlength := length_le_following hfollowing
    refine statements?_cons hfirst (skipGap_write hfirst _) (statements?_following hfollowing ?_)
    show following.length < (first.write ++ following.flatMap nextStatement).length
    rw [hwritten, List.cons_append, List.length_cons, List.length_append]
    omega

/-- No document begins with a byte order mark: it begins with a bracket or with a key. -/
theorem dropMark_write {statements : List Statement}
    (h : ∀ statement ∈ statements, statement.Writable) :
    dropMark (write statements) = write statements := by
  cases statements with
  | nil => rfl
  | cons first following =>
    obtain ⟨c, tail, hwritten, hc⟩ := (h first List.mem_cons_self).begins
    have hmark : c ≠ '\ufeff' := by
      rcases hc with rfl | hc
      · decide
      · exact hc.ne (by decide)
    rw [write, hwritten, List.cons_append]
    unfold dropMark
    split
    · rename_i heq
      exact absurd (List.cons.inj heq).1 hmark
    · rfl

/-- **A document that was written is read as its statements**, and so as the table that they define.
Between them there are line ends alone, which the reader passes over. -/
theorem parse?_write {statements : List Statement}
    (h : ∀ statement ∈ statements, statement.Writable) :
    parse? (String.ofList (write statements)) = Members.ofStatements? statements := by
  unfold parse?
  rw [String.toList_ofList, dropMark_write h]
  show (statements? _ _).bind _ = _
  rw [statements?_write h]
  rfl

end CommandCompletion.Toml
