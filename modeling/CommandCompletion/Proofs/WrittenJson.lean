/-
JSON that was written is read as the value it was written for.

Both forms of a value are put together from the same parts with different blanks
between them, so both spell the tokens of the value (`spells_compact`,
`spells_indented`), and from these the reader gets the value back (`run_tokens`).

This holds for every value whose numbers are numbers of JSON (`Writable`), names that
repeat and strings without a text included. The form in one line has no character below
the space, so neither a line feed nor a carriage return (`printable_compact`).
-/
import CommandCompletion.Json.Reading
import CommandCompletion.Proofs.JsonTokens

set_option autoImplicit false

namespace CommandCompletion.Json

open Text (hexChar)

/-! ## The tokens of a value -/

/-- Lists of tokens with a comma between each and the next, as both forms of an array and of an
object put them; none after the last. -/
def separated : List (List Token) → List Token
  | [] => []
  | [tokens] => tokens
  | tokens :: more => tokens ++ .comma :: separated more

mutual

/-- The tokens that write a value: what the compact and the indented form have in common once the
blanks are gone. -/
def Value.tokens : Value → List Token
  | .null => [.null]
  | .bool value => [.bool value]
  | .number literal => [.number literal]
  | .string text => [.string text]
  | .array items => .openArray :: (separated (tokensOfItems items) ++ [.closeArray])
  | .object members => .openObject :: (separated (tokensOfMembers members) ++ [.closeObject])

/-- The tokens of each item. -/
def tokensOfItems : List Value → List (List Token)
  | [] => []
  | value :: values => value.tokens :: tokensOfItems values

/-- The tokens of each member. -/
def tokensOfMembers : List (Option String × Value) → List (List Token)
  | [] => []
  | (name, value) :: members =>
    (.string name :: .colon :: value.tokens) :: tokensOfMembers members

end

/-- No value begins with the end of an array, so it makes no difference whether that could come
first. This is the one place where the states of the reader differ for the first item. -/
theorem run_firstItem (value : Value) (stack : List Frame) (rest : List Token) :
    run .firstItem stack (value.tokens ++ rest) = run .value stack (value.tokens ++ rest) := by
  cases value <;> rfl

mutual

/-- **The reader gets a value back from its tokens**, whatever is open around it and whatever
follows. The induction is on the value, together with the items and the members; what is open is
arbitrary since it grows on the way down. -/
theorem run_tokens : ∀ (value : Value) (stack : List Frame) (rest : List Token),
    run .value stack (value.tokens ++ rest) = run (.after value) stack rest
  | .null, _, _ | .bool _, _, _ | .number _, _, _ | .string _, _, _ => rfl
  | .array [], _, _ | .object [], _, _ => rfl
  | .array (item :: items), stack, rest => by
    have hitems := run_items (item :: items) [] stack rest (List.cons_ne_nil item items)
    rw [Value.tokens, List.cons_append, List.append_assoc]
    show run .firstItem (.items [] :: stack) _ = _
    refine Eq.trans ?_ hitems
    cases items with
    | nil => exact run_firstItem item _ _
    | cons next items =>
      rw [tokensOfItems, tokensOfItems, separated, List.append_assoc, List.append_assoc]
      · exact run_firstItem item _ _
      · exact List.cons_ne_nil _ _
  | .object (member :: members), stack, rest => by
    have hmembers := run_members (member :: members) [] stack rest
      (List.cons_ne_nil member members)
    rw [Value.tokens, List.cons_append, List.append_assoc]
    show run .firstName (.members [] :: stack) _ = _
    refine Eq.trans ?_ hmembers
    -- A member begins with its name, so it cannot be the end of the object either.
    cases members <;> rfl

/-- The items of an array that is open, up to its end: those that were read before stand in front,
in reverse as the reader keeps them. -/
theorem run_items : ∀ (items done : List Value) (stack : List Frame) (rest : List Token),
    items ≠ [] → run .value (.items done :: stack)
        (separated (tokensOfItems items) ++ .closeArray :: rest) =
      run (.after (.array (done.reverse ++ items))) stack rest
  | [], _, _, _, h => absurd rfl h
  | [item], done, stack, rest, _ => by
    rw [← List.reverse_cons]
    exact run_tokens item (.items done :: stack) (.closeArray :: rest)
  | item :: next :: items, done, stack, rest, _ => by
    -- One item goes from those to come to those that were read, so their number falls.
    have hmore := run_items (next :: items) (item :: done) stack rest
      (List.cons_ne_nil next items)
    rw [List.reverse_cons, List.append_assoc] at hmore
    have hfirst := run_tokens item (.items done :: stack)
      (.comma :: (separated (tokensOfItems (next :: items)) ++ .closeArray :: rest))
    rw [tokensOfItems, tokensOfItems, separated, List.append_assoc]
    · exact hfirst.trans hmore
    · exact List.cons_ne_nil _ _

/-- The members of an object that is open, up to its end: those that were read before stand in
front, in reverse as the reader keeps them. -/
theorem run_members : ∀ (members done : List (Option String × Value)) (stack : List Frame)
    (rest : List Token), members ≠ [] → run .name (.members done :: stack)
        (separated (tokensOfMembers members) ++ .closeObject :: rest) =
      run (.after (.object (done.reverse ++ members))) stack rest
  | [], _, _, _, h => absurd rfl h
  | [(name, value)], done, stack, rest, _ => by
    rw [← List.reverse_cons]
    exact run_tokens value (.naming done name :: stack) (.closeObject :: rest)
  | (name, value) :: next :: members, done, stack, rest, _ => by
    have hmore := run_members (next :: members) ((name, value) :: done) stack rest
      (List.cons_ne_nil next members)
    rw [List.reverse_cons, List.append_assoc] at hmore
    have hfirst := run_tokens value (.naming done name :: stack)
      (.comma :: (separated (tokensOfMembers (next :: members)) ++ .closeObject :: rest))
    obtain ⟨nextName, nextValue⟩ := next
    rw [tokensOfMembers, tokensOfMembers, separated, List.append_assoc]
    · exact hfirst.trans hmore
    · exact List.cons_ne_nil _ _

end

/-- With nothing open and nothing behind it, a value's tokens are read as the value and no more. -/
theorem ofTokens?_tokens (value : Value) : Value.ofTokens? value.tokens = some value := by
  have h := run_tokens value [] []
  rw [List.append_nil] at h
  unfold Value.ofTokens?
  rw [h]
  rfl

/-! ## Both forms -/

/-- Every number in the value is a number of JSON. A number is kept as the text it is written with,
so without this the text could be anything. -/
inductive Writable : Value → Prop where
  | null : Writable .null
  | bool (value : Bool) : Writable (.bool value)
  | number {literal : String} (h : isNumber literal.toList = true) : Writable (.number literal)
  | string (text : Option String) : Writable (.string text)
  | array {items : List Value} (h : ∀ item ∈ items, Writable item) : Writable (.array items)
  | object {members : List (Option String × Value)} (h : ∀ member ∈ members, Writable member.2) :
    Writable (.object members)

/-- A text that spells the tokens of a value is read as the value: the tokens first, and the value
from them. -/
theorem parse?_of_spells {text : String} {value : Value} (h : Spells text value.tokens) :
    parse? text = some value := by
  have hread := h [] parted_nil
  rw [List.append_nil, Token.ofChars?, Option.map_some, List.append_nil] at hread
  unfold parse?
  rw [hread]
  exact ofTokens?_tokens value

section

variable {items : List Value} {members : List (Option String × Value)}

/-- Blanks end a number and a word, so they may stand behind either. -/
theorem parted_of_blank {cs : List Char} (hgap : ∀ c ∈ cs, isBlank c = true) : Parted cs := by
  intro c hc
  have hblank := hgap c (List.mem_of_mem_head? hc)
  unfold isBlank at hblank
  simp only [Bool.or_eq_true, beq_iff_eq] at hblank
  rcases hblank with ((rfl | rfl) | rfl) | rfl
  all_goals decide

/-- Texts with commas between them spell their tokens with commas between them. A comma ends
whatever stands before it, so a number may be the end of any part; blanks may follow each comma. -/
theorem spells_intercalate {α : Type} {write : α → String} {tokens : α → List Token}
    (gap : String) (hgap : ∀ c ∈ gap.toList, isBlank c = true) : ∀ {parts : List α},
    (∀ part ∈ parts, Spells (write part) (tokens part)) →
      Spells (String.intercalate ("," ++ gap) (parts.map write)) (separated (parts.map tokens))
  | [], _ => (delimits_blanks "" (List.all_eq_true.mp (by decide))).spells
  | [part], h => by
    rw [List.map_singleton, String.intercalate_singleton]
    exact h part List.mem_cons_self
  | part :: next :: parts, h => by
    obtain ⟨hfirst, hrest⟩ := List.forall_mem_cons.mp h
    have hmore := spells_intercalate gap hgap hrest
    obtain ⟨-, -, -, -, hcomma, -⟩ := delimits_marks
    have hafter := (hcomma.append (delimits_blanks gap hgap)).append_spells hmore
    simp only [List.map_cons, String.intercalate_cons_cons]
    rw [separated, String.append_assoc]
    · refine hfirst.append hafter ?_
      rw [String.toList_append, String.toList_append]
      exact parted_cons (by decide) _
    · exact List.cons_ne_nil _ _

/-- A container spells what it is opened with, what its content spells, and what it is
closed with; blanks may stand on both sides of the content. -/
theorem spells_enclosed {opened closed inner before after : String} {first last : Token}
    {tokens : List Token} (hopened : Delimits opened [first]) (hclosed : Delimits closed [last])
    (hparted : Parted closed.toList) (hbefore : ∀ c ∈ before.toList, isBlank c = true)
    (hafter : ∀ c ∈ after.toList, isBlank c = true) (hinner : Spells inner tokens) :
    Spells (opened ++ before ++ inner ++ after ++ closed) (first :: (tokens ++ [last])) := by
  have hfront := (hopened.append (delimits_blanks before hbefore)).append_spells hinner
  have hback := hfront.append (delimits_blanks after hafter).spells (parted_of_blank hafter)
  have hall := hback.append hclosed.spells hparted
  simpa using hall

variable {write : Value → String}

/-- The items of an array, with blanks behind the commas: the case of single values. -/
theorem spells_items (gap : String) (hgap : ∀ c ∈ gap.toList, isBlank c = true)
    (h : ∀ item ∈ items, Spells (write item) item.tokens) :
    Spells (String.intercalate ("," ++ gap) (items.map write))
      (separated (tokensOfItems items)) := by
  have htokens : tokensOfItems items = items.map Value.tokens := by
    induction items with
    | nil => rfl
    | cons item items ih =>
      rw [tokensOfItems, ih (List.forall_mem_cons.mp h).2, List.map_cons]
  rw [htokens]
  exact spells_intercalate gap hgap h

/-- The members of an object, with blanks behind the commas and the colons: the case where each part
is a name, a colon and a value. -/
theorem spells_members (gap space : String) (hgap : ∀ c ∈ gap.toList, isBlank c = true)
    (hspace : ∀ c ∈ space.toList, isBlank c = true)
    (h : ∀ member ∈ members, Spells (write member.2) member.2.tokens) :
    Spells (String.intercalate ("," ++ gap)
        (members.map fun member => writeString member.1 ++ (":" ++ space) ++ write member.2))
      (separated (tokensOfMembers members)) := by
  have htokens : tokensOfMembers members =
      members.map fun member => .string member.1 :: .colon :: member.2.tokens := by
    induction members with
    | nil => rfl
    | cons member members ih =>
      rw [tokensOfMembers, ih (List.forall_mem_cons.mp h).2, List.map_cons]
  obtain ⟨-, -, -, -, -, hcolon⟩ := delimits_marks
  rw [htokens]
  refine spells_intercalate gap hgap fun member hmem => ?_
  have hname := (delimits_string member.1).append (hcolon.append (delimits_blanks space hspace))
  exact hname.append_spells (h member hmem)

end

namespace Value

/-- The compact form writes the items one after the other with commas between them, which its
recursion over the list does not show. -/
theorem compactItems_eq (items : List Value) :
    compactItems items = String.intercalate "," (items.map compact) := by
  induction items with
  | nil => rfl
  | cons item items ih =>
    cases items with
    | nil => exact String.intercalate_singleton.symm
    | cons next items =>
      rw [compactItems, ih]
      · simp only [List.map_cons, String.intercalate_cons_cons]
      · exact List.cons_ne_nil _ _

/-- The same for the members, each a name, a colon and a value. -/
theorem compactMembers_eq (members : List (Option String × Value)) :
    compactMembers members = String.intercalate ","
      (members.map fun member => writeString member.1 ++ ":" ++ compact member.2) := by
  induction members with
  | nil => rfl
  | cons member members ih =>
    cases members with
    | nil => exact String.intercalate_singleton.symm
    | cons next members =>
      rw [compactMembers, ih]
      · simp only [List.map_cons, String.intercalate_cons_cons]
      · exact List.cons_ne_nil _ _

/-- The indented form of the items has a new line behind every comma. -/
theorem indentedItems_eq (width depth : Nat) (items : List Value) :
    indentedItems width depth items =
      String.intercalate ("," ++ newline width depth) (items.map (indented width depth)) := by
  induction items with
  | nil => rfl
  | cons item items ih =>
    cases items with
    | nil => exact String.intercalate_singleton.symm
    | cons next items =>
      rw [indentedItems, ih]
      · simp only [List.map_cons, String.intercalate_cons_cons, String.append_assoc]
      · exact List.cons_ne_nil _ _

/-- The same for the members, with a space behind every colon. -/
theorem indentedMembers_eq (width depth : Nat) (members : List (Option String × Value)) :
    indentedMembers width depth members = String.intercalate ("," ++ newline width depth)
      (members.map fun member =>
        writeString member.1 ++ ": " ++ indented width depth member.2) := by
  induction members with
  | nil => rfl
  | cons member members ih =>
    cases members with
    | nil => exact String.intercalate_singleton.symm
    | cons next members =>
      rw [indentedMembers, ih]
      · simp only [List.map_cons, String.intercalate_cons_cons, String.append_assoc]
      · exact List.cons_ne_nil _ _

end Value

/-- The form in one line spells the tokens of the value, by induction on the value: an array and an
object are enclosed texts with no blanks in them. -/
theorem spells_compact {value : Value} (h : Writable value) :
    Spells value.compact value.tokens := by
  obtain ⟨hnull, htrue, hfalse⟩ := spells_words
  obtain ⟨hopen, hclose, hopen', hclose', -, -⟩ := delimits_marks
  have hnone : ∀ c ∈ "".toList, isBlank c = true := List.all_eq_true.mp (by decide)
  induction h with
  | null => exact hnull
  | bool value =>
    cases value with
    | true => exact htrue
    | false => exact hfalse
  | number h => exact spells_number h
  | string text => exact (delimits_string text).spells
  | array _ ih =>
    have hinner := spells_items "" hnone ih
    have hall := spells_enclosed hopen hclose (parted_cons (by decide) []) hnone hnone hinner
    rw [Value.compact, Value.compactItems_eq, Value.tokens]
    simpa using hall
  | object _ ih =>
    have hinner := spells_members "" "" hnone hnone ih
    have hall := spells_enclosed hopen' hclose' (parted_cons (by decide) []) hnone hnone hinner
    rw [Value.compact, Value.compactMembers_eq, Value.tokens]
    simpa using hall

/-- A line end with its indentation is made of blanks, whatever the width and the depth are. -/
theorem isBlank_newline (width depth : Nat) :
    ∀ c ∈ (Value.newline width depth).toList, isBlank c = true := by
  have hnewline : (Value.newline width depth).toList =
      '\n' :: List.replicate (width * depth) ' ' := by
    unfold Value.newline
    rw [String.toList_append]
    exact congrArg ('\n' :: ·) String.toList_ofList
  rw [hnewline]
  refine List.forall_mem_cons.mpr ⟨by decide, fun c hc => ?_⟩
  rw [List.eq_of_mem_replicate hc]
  decide

/-- The form over several lines spells the same tokens. The depth is arbitrary in the induction, as
the parts of a container stand one deeper than it does. -/
theorem spells_indented (width : Nat) {value : Value} (h : Writable value) (depth : Nat) :
    Spells (value.indented width depth) value.tokens := by
  obtain ⟨hnull, htrue, hfalse⟩ := spells_words
  obtain ⟨hopen, hclose, hopen', hclose', -, -⟩ := delimits_marks
  induction h generalizing depth with
  | null => exact hnull
  | bool value =>
    cases value with
    | true => exact htrue
    | false => exact hfalse
  | number h => exact spells_number h
  | string text => exact (delimits_string text).spells
  | @array items _ ih =>
    cases items with
    -- An empty container has no line ends in it.
    | nil => exact (hopen.append hclose).spells
    | cons item items =>
      have hinner := spells_items _ (isBlank_newline width (depth + 1)) fun item hmem =>
        ih item hmem (depth + 1)
      rw [Value.indented, Value.indentedItems_eq, Value.tokens]
      · exact spells_enclosed hopen hclose (parted_cons (by decide) []) (isBlank_newline _ _)
          (isBlank_newline _ _) hinner
      · exact List.cons_ne_nil _ _
  | @object members _ ih =>
    cases members with
    | nil => exact (hopen'.append hclose').spells
    | cons member members =>
      have hgap : ∀ c ∈ " ".toList, isBlank c = true := List.all_eq_true.mp (by decide)
      have hinner := spells_members _ " " (isBlank_newline width (depth + 1)) hgap
        fun member hmem => ih member hmem (depth + 1)
      rw [Value.indented, Value.indentedMembers_eq, Value.tokens]
      · exact spells_enclosed hopen' hclose' (parted_cons (by decide) []) (isBlank_newline _ _)
          (isBlank_newline _ _) hinner
      · exact List.cons_ne_nil _ _

/-- **A value is read back from its form in one line.** This form is what other programs are given
(specification, § E1.5). -/
theorem parse?_compact {value : Value} (h : Writable value) :
    parse? value.compact = some value := parse?_of_spells (spells_compact h)

/-- **A value is read back from its indented form**, whatever the indentation is. -/
theorem parse?_indented (width : Nat) {value : Value} (h : Writable value) (depth : Nat) :
    parse? (value.indented width depth) = some value :=
  parse?_of_spells (spells_indented width h depth)

/-! ## One line -/

/-- The text has no character below the space, so no line feed and no carriage return. Characters
above the space are not looked at: a line separator of Unicode may be in it. -/
def Printable (cs : List Char) : Prop := ∀ c ∈ cs, 0x20 ≤ c.toNat

instance (cs : List Char) : Decidable (Printable cs) :=
  decidable_of_iff (cs.all fun c => decide (0x20 ≤ c.toNat))
    (List.all_eq_true.trans (forall₂_congr fun _ _ => decide_eq_true_iff))

/-- What is put together from texts without such characters has none. -/
theorem printable_append {before after : String} (hbefore : Printable before.toList)
    (hafter : Printable after.toList) : Printable (before ++ after).toList := by
  intro c hc
  rw [String.toList_append] at hc
  rcases List.mem_append.mp hc with hc | hc
  · exact hbefore c hc
  · exact hafter c hc

/-- Every character below the space is escaped: seven have escapes of their own, the others are
written in digits, and there are only 32 to try. -/
theorem printable_escapeChar (c : Char) : Printable (escapeChar c) := by
  unfold escapeChar
  iterate 7 (split; · decide)
  split
  · rename_i hcontrol
    have digits : ∀ n : Fin 0x20, Printable
        ['\\', 'u', '0', '0', hexChar (n / 16), hexChar (n % 16)] := by decide
    exact digits ⟨c.toNat, hcontrol⟩
  · rename_i hprintable
    intro d hd
    rw [List.mem_singleton.mp hd]
    exact Nat.not_lt.mp hprintable

/-- A string that was written has none either, whatever characters are in it. -/
theorem printable_writeString (text : Option String) : Printable (writeString text).toList := by
  cases text with
  | some text =>
    unfold writeString
    rw [String.toList_ofList]
    refine List.forall_mem_cons.mpr ⟨by decide, fun c hc => ?_⟩
    rcases List.mem_append.mp hc with hc | hc
    · obtain ⟨d, -, hc⟩ := List.mem_flatMap.mp hc
      exact printable_escapeChar d c hc
    · rw [List.mem_singleton.mp hc]
      decide
  | none =>
    unfold writeString
    decide

/-- Commas between such texts change nothing. -/
theorem printable_intercalate {texts : List String} (h : ∀ text ∈ texts, Printable text.toList) :
    Printable (String.intercalate "," texts).toList := by
  induction texts with
  | nil => exact fun c hc => absurd hc List.not_mem_nil
  | cons text texts ih =>
    obtain ⟨hfirst, hrest⟩ := List.forall_mem_cons.mp h
    cases texts with
    | nil =>
      rw [String.intercalate_singleton]
      exact hfirst
    | cons next texts =>
      rw [String.intercalate_cons_cons]
      exact printable_append (printable_append hfirst (by decide)) (ih hrest)

/-- Digits, signs, the point and the letter of an exponent all stand above the space. -/
theorem printable_of_isNumberChar {c : Char} (h : isNumberChar c = true) : 0x20 ≤ c.toNat := by
  unfold isNumberChar at h
  rcases Bool.or_eq_true_iff.mp h with h | h
  · have hlow := (Char.isDigit_iff_toNat.mp h).1
    have hzero : '0'.toNat = 48 := rfl
    omega
  · have signs : Printable "+-.eE".toList := by decide
    exact signs c (List.contains_iff_mem.mp h)

/-- **The form in one line has no line feed and no carriage return**, whatever characters are in the
strings: these are escaped, and nothing else is written but marks, words and numbers. -/
theorem printable_compact {value : Value} (h : Writable value) :
    Printable value.compact.toList := by
  induction h with
  | null =>
    rw [Value.compact]
    decide
  | bool value =>
    cases value <;> rw [Value.compact] <;> decide
  | @number literal h =>
    obtain ⟨c, tail, hliteral, hfirst, htail⟩ := exists_of_isNumber h
    have hc : isNumberChar c = true := by
      rcases hfirst with rfl | hdigit
      · decide
      · exact isNumberChar_of_isDigit hdigit
    rw [Value.compact, hliteral]
    exact List.forall_mem_cons.mpr ⟨printable_of_isNumberChar hc, fun d hd =>
      printable_of_isNumberChar (htail d hd)⟩
  | string text => exact printable_writeString text
  | array _ ih =>
    rw [Value.compact, Value.compactItems_eq]
    refine printable_append (printable_append (by decide) ?_) (by decide)
    exact printable_intercalate (List.forall_mem_map.mpr ih)
  | object _ ih =>
    rw [Value.compact, Value.compactMembers_eq]
    refine printable_append (printable_append (by decide) ?_) (by decide)
    refine printable_intercalate (List.forall_mem_map.mpr fun member hmem => ?_)
    refine printable_append (printable_append ?_ (by decide)) (ih member hmem)
    exact printable_writeString member.1

end CommandCompletion.Json
