/-
What can be read back from suggestions that were printed as JSON.

Whoever reads the output finds the suggestions that were not cut off, in their order and
each with all that it says, and the number of characters to drop
(`Formatter.exists_reported`). The form in one line always says this. The form over several
lines says it as long as it is not painted: without colours it is read as the very same
value, and a painter that has no terminal to paint for prints the value again, which may
move the members of an object (`Reprints`) but loses nothing, as `Reports` does not look at
their order (`unordered_reports`).

On a terminal the colours become part of the text, and what begins with an escape sequence
is no JSON at all (`Formatter.parse?_painted`).
-/
import Mathlib.Data.List.Forall2
import CommandCompletion.Proofs.WrittenJson
import CommandCompletion.Rendering

set_option autoImplicit false

namespace CommandCompletion

namespace Json

/-! ## Values up to the order of members -/

namespace Value

/-- The same value but for the order of members: those of any object in it may be moved, and this
any number of times, while the items of an array stay where they are. -/
inductive Reordered : Value → Value → Prop where
  | refl (value : Value) : Reordered value value
  | trans {value middle value' : Value} (h : Reordered value middle)
    (h' : Reordered middle value') : Reordered value value'
  | members {members members' : List (Option String × Value)} (h : members.Perm members') :
    Reordered (.object members) (.object members')
  | member {value value' : Value} (before after : List (Option String × Value))
    (name : Option String) (h : Reordered value value') :
    Reordered (.object (before ++ (name, value) :: after))
      (.object (before ++ (name, value') :: after))
  | item {value value' : Value} (before after : List Value) (h : Reordered value value') :
    Reordered (.array (before ++ value :: after)) (.array (before ++ value' :: after))

/-- The order of members does not count for this property: what it says of a value it says of every
value that differs from it in the order alone. -/
def Unordered (property : Value → Prop) : Prop :=
  ∀ ⦃value value' : Value⦄, value.Reordered value' → property value → property value'

/-- The value is this number, written in decimal digits and nothing else, so no sign, fraction or
exponent. -/
def IsNat (n : Nat) (value : Value) : Prop :=
  ∃ literal, value = .number literal ∧ literal.toList ≠ [] ∧
    (∀ c ∈ literal.toList, c.isDigit = true) ∧ Text.digitsValue literal.toList = n

/-- An object of one member for each of these names, in any order and no other, with a value that is
as it should be. -/
def HasMembers (fields : List (String × (Value → Prop))) (value : Value) : Prop :=
  ∃ found members, value = .object found ∧ found.Perm members ∧
    List.Forall₂ (fun member field => member.1 = some field.1 ∧ field.2 member.2) members fields

/-- An array of one item for each of these, in their order, with each item related to what it stands
for. -/
def HasItems {α : Type} (property : Value → α → Prop) (parts : List α) (value : Value) : Prop :=
  ∃ items, value = .array items ∧ List.Forall₂ property items parts

/-- A number is written in its digits, and these have its value. -/
theorem isNat_ofNat (n : Nat) : IsNat n (ofNat n) :=
  ⟨toString n, rfl, Text.repr_ne_nil n, Text.isDigit_of_mem_repr, Text.digitsValue_repr n⟩

/-- A string has no members to move. -/
theorem unordered_string (text : Option String) : Unordered (· = .string text) := by
  intro value value' h
  induction h with
  | refl => exact id
  | trans _ _ ih ih' => exact fun hvalue => ih' (ih hvalue)
  | _ => exact Value.noConfusion

/-- Nor has a number. -/
theorem unordered_isNat (n : Nat) : Unordered (IsNat n) := by
  intro value value' h
  induction h with
  | refl => exact id
  | trans _ _ ih ih' => exact fun hvalue => ih' (ih hvalue)
  | _ => exact fun ⟨_, hvalue, _⟩ => nomatch hvalue

/-- One part may take the place of another that is no less related to what it stands beside. -/
theorem forall₂_replace {α β : Type} {R : α → β → Prop} {a a' : α} {right : List α} :
    ∀ {left : List α} {bs : List β}, (∀ b ∈ bs, R a b → R a' b) →
      List.Forall₂ R (left ++ a :: right) bs → List.Forall₂ R (left ++ a' :: right) bs
  | [], _ :: _, himp, .cons h hs => .cons (himp _ List.mem_cons_self h) hs
  | _ :: _, _ :: _, himp, .cons h hs =>
    .cons h (forall₂_replace (fun b hb => himp b (List.mem_cons_of_mem _ hb)) hs)

/-- An object has its members wherever they stand, as long as the order does not count in them
either. By induction on the moves that were made: a member that changed is found among those asked
for, and takes the place of the one before it. -/
theorem unordered_hasMembers {fields : List (String × (Value → Prop))}
    (h : ∀ field ∈ fields, Unordered field.2) : Unordered (HasMembers fields) := by
  intro value value' hreordered
  induction hreordered with
  | refl => exact id
  | trans _ _ ih ih' => exact fun hvalue => ih' (ih hvalue)
  | members hperm =>
    rintro ⟨found, members, hfound, hmembers, hfields⟩
    cases hfound
    exact ⟨_, members, rfl, hperm.symm.trans hmembers, hfields⟩
  | item => exact fun ⟨_, _, hfound, _⟩ => nomatch hfound
  | @member value value' before after name hvalue _ =>
    rintro ⟨found, members, hfound, hmembers, hfields⟩
    cases hfound
    have hmem : (name, value) ∈ members :=
      hmembers.mem_iff.mp (List.mem_append_right _ List.mem_cons_self)
    -- The member that changed stands somewhere among those that were asked for.
    obtain ⟨left, right, rfl⟩ := List.append_of_mem hmem
    refine ⟨_, left ++ (name, value') :: right, rfl, ?_, ?_⟩
    · have hrest := List.perm_middle.symm.trans (hmembers.trans List.perm_middle)
      exact List.perm_middle.trans ((hrest.cons_inv.cons _).trans List.perm_middle.symm)
    · refine forall₂_replace (fun field hfield hmember => ?_) hfields
      exact ⟨hmember.1, h field hfield hvalue hmember.2⟩

/-- An array has its items if the order does not count in them; moves within an item leave the
others alone, and items are never moved. -/
theorem unordered_hasItems {α : Type} {property : Value → α → Prop} {parts : List α}
    (h : ∀ part ∈ parts, Unordered (property · part)) : Unordered (HasItems property parts) := by
  intro value value' hreordered
  induction hreordered with
  | refl => exact id
  | trans _ _ ih ih' => exact fun hvalue => ih' (ih hvalue)
  | item before after hvalue _ =>
    rintro ⟨items, hitems, hparts⟩
    cases hitems
    exact ⟨_, rfl, forall₂_replace (fun part hpart => h part hpart hvalue) hparts⟩
  | _ => exact fun ⟨_, hitems, _⟩ => nomatch hitems

/-- An object that was written with these members has them: it asks for them in the order they were
written. -/
theorem hasMembers_ofMembers {members : List (String × Value)}
    {fields : List (String × (Value → Prop))}
    (h : List.Forall₂ (fun member field => member.1 = field.1 ∧ field.2 member.2) members fields) :
    HasMembers fields (ofMembers members) := by
  refine ⟨_, _, rfl, .refl _, List.forall₂_map_left_iff.mpr (h.imp fun member field hmember => ?_)⟩
  exact ⟨congrArg some hmember.1, hmember.2⟩

end Value

/-- A value that every reader of JSON takes for the same: its numbers are whole and fit a
machine word, its strings have a text, and no name of an object repeats. -/
inductive Plain : Value → Prop where
  | null : Plain .null
  | bool (value : Bool) : Plain (.bool value)
  | nat {n : Nat} (h : n < UInt64.size) : Plain (.ofNat n)
  | string (text : String) : Plain (.ofString text)
  | array {items : List Value} (h : ∀ item ∈ items, Plain item) : Plain (.array items)
  | object {members : List (String × Value)} (hnames : (members.map (·.1)).Nodup)
    (h : ∀ member ∈ members, Plain member.2) : Plain (.ofMembers members)

/-- Where the members of a value stand makes no difference to its numbers. -/
theorem Writable.reordered {value value' : Value} (h : value.Reordered value')
    (hvalue : Writable value) : Writable value' := by
  induction h with
  | refl => exact hvalue
  | trans _ _ ih ih' => exact ih' (ih hvalue)
  | members hperm =>
    cases hvalue with
    | object hmembers => exact .object fun member hmem => hmembers member (hperm.mem_iff.mpr hmem)
  | member before after name _ ih =>
    cases hvalue with
    | object hmembers =>
      obtain ⟨hbefore, hafter⟩ := List.forall_mem_append.mp hmembers
      obtain ⟨hmember, hafter⟩ := List.forall_mem_cons.mp hafter
      exact .object (List.forall_mem_append.mpr
        ⟨hbefore, List.forall_mem_cons.mpr ⟨ih hmember, hafter⟩⟩)
  | item before after _ ih =>
    cases hvalue with
    | array hitems =>
      obtain ⟨hbefore, hafter⟩ := List.forall_mem_append.mp hitems
      obtain ⟨hitem, hafter⟩ := List.forall_mem_cons.mp hafter
      exact .array (List.forall_mem_append.mpr
        ⟨hbefore, List.forall_mem_cons.mpr ⟨ih hitem, hafter⟩⟩)

/-- What every reader takes for the same is made of numbers of JSON, so it is read back. -/
theorem writable_of_plain {value : Value} (h : Plain value) : Writable value := by
  induction h with
  | null => exact .null
  | bool value => exact .bool value
  | nat => exact .number (isNumber_repr _)
  | string text => exact .string text
  | array _ ih => exact .array ih
  | object _ _ ih => exact .object (List.forall_mem_map.mpr ih)

end Json

namespace Rendering

open Json

/-! ## Suggestions that are read back -/

/-- The value says all that the suggestion does, and nothing else: its name, what is inserted, the
description if there is one, the kind and the priority. -/
def IsSuggestion (value : Value) (suggestion : Suggestion) : Prop :=
  value.HasMembers <|
    [("name", (· = .ofString suggestion.name)),
      ("insertValue", (· = .ofString suggestion.insertValue))] ++
    (suggestion.description.map fun text => ("description", (· = Value.ofString text))).toList ++
    [("kind", (· = .ofString suggestion.kind.name)),
      ("priority", Value.IsNat suggestion.priority)]

/-- The value lists these suggestions in their order, says how many characters to drop, and
nothing else. -/
def Reports (value : Value) (suggestions : List Suggestion) (charactersToDrop : Nat) : Prop :=
  value.HasMembers [
    ("suggestions", Value.HasItems IsSuggestion suggestions),
    ("charactersToDrop", Value.IsNat charactersToDrop)]

/-- What a value says of a suggestion it says in any order: each of its members is a string or a
number. -/
theorem unordered_isSuggestion (suggestion : Suggestion) :
    Value.Unordered (IsSuggestion · suggestion) := by
  refine Value.unordered_hasMembers fun field hfield => ?_
  simp only [List.mem_append, List.mem_cons, List.not_mem_nil, or_false, Option.mem_toList,
    Option.map_eq_some_iff] at hfield
  -- A member for the name, the insertion, the description, the kind and the priority.
  rcases hfield with ((rfl | rfl) | ⟨text, -, rfl⟩) | rfl | rfl
  · exact Value.unordered_string _
  · exact Value.unordered_string _
  · exact Value.unordered_string _
  · exact Value.unordered_string _
  · exact Value.unordered_isNat _

/-- What a value reports it reports in any order of the members, on either level. -/
theorem unordered_reports (suggestions : List Suggestion) (charactersToDrop : Nat) :
    Value.Unordered (Reports · suggestions charactersToDrop) := by
  refine Value.unordered_hasMembers (List.forall_mem_cons.mpr ⟨?_, ?_⟩)
  · exact Value.unordered_hasItems fun suggestion _ => unordered_isSuggestion suggestion
  · exact List.forall_mem_singleton.mpr (Value.unordered_isNat _)

/-- The value that is written for a suggestion says all of it, with or without a description. -/
theorem isSuggestion_suggestionValue (suggestion : Suggestion) :
    IsSuggestion (suggestionValue suggestion) suggestion := by
  have hpriority := Value.isNat_ofNat suggestion.priority
  refine Value.hasMembers_ofMembers ?_
  cases suggestion.description with
  | none => simp [hpriority]
  | some text => simp [hpriority]

/-- The value that is written for suggestions reports them in their order, by what is written for
each of them. -/
theorem reports_suggestionsValue (suggestions : Suggestions) :
    Reports (suggestionsValue suggestions) suggestions.candidates suggestions.charactersToDrop := by
  have hitems : List.Forall₂ IsSuggestion (suggestions.candidates.map suggestionValue)
      suggestions.candidates :=
    List.forall₂_map_left_iff.mpr (List.forall₂_same.mpr fun s _ => isSuggestion_suggestionValue s)
  refine Value.hasMembers_ofMembers (.cons ⟨rfl, _, rfl, hitems⟩ (.cons ⟨rfl, ?_⟩ .nil))
  exact Value.isNat_ofNat suggestions.charactersToDrop

/-- A suggestion is written as texts and its priority, each under a name of its own. -/
theorem suggestionValue_eq (suggestion : Suggestion) :
    ∃ members, suggestionValue suggestion = .ofMembers members ∧ (members.map (·.1)).Nodup ∧
      ∀ member ∈ members,
        (∃ text, member.2 = .ofString text) ∨ member.2 = .ofNat suggestion.priority := by
  refine ⟨_, rfl, ?_, fun member hmember => ?_⟩
  · cases suggestion.description with
    | none => exact (by decide : ["name", "insertValue", "kind", "priority"].Nodup)
    | some text =>
      exact (by decide : ["name", "insertValue", "description", "kind", "priority"].Nodup)
  · simp only [List.mem_append, List.mem_cons, List.not_mem_nil, or_false, Option.mem_toList,
      Option.map_eq_some_iff] at hmember
    rcases hmember with ((rfl | rfl) | ⟨text, -, rfl⟩) | rfl | rfl
    · exact .inl ⟨_, rfl⟩
    · exact .inl ⟨_, rfl⟩
    · exact .inl ⟨_, rfl⟩
    · exact .inl ⟨_, rfl⟩
    · exact .inr rfl

/-- The value that is written has no numbers but those of JSON, which is all the reader needs. -/
theorem writable_suggestionsValue (suggestions : Suggestions) :
    Writable (suggestionsValue suggestions) := by
  have hitem : ∀ candidate, Writable (suggestionValue candidate) := by
    intro candidate
    obtain ⟨members, hvalue, -, hmembers⟩ := suggestionValue_eq candidate
    rw [hvalue]
    refine .object (List.forall_mem_map.mpr fun member hmember => ?_)
    obtain ⟨text, htext⟩ | hpriority := hmembers member hmember
    · exact htext ▸ .string _
    · exact hpriority ▸ .number (isNumber_repr _)
  refine .object (List.forall_mem_cons.mpr ⟨?_, ?_⟩)
  · exact .array (List.forall_mem_map.mpr fun candidate _ => hitem candidate)
  · exact List.forall_mem_singleton.mpr (.number (isNumber_repr _))

/-! ## Painting -/

/-- Priorities and the number of characters fit a machine word. -/
structure WordSized (suggestions : Suggestions) : Prop where
  charactersToDrop : suggestions.charactersToDrop < UInt64.size
  priority : ∀ candidate ∈ suggestions.candidates, candidate.priority < UInt64.size

/-- With numbers that fit a machine word the value is one that every reader takes for the same: the
names of a suggestion are different, and those of the whole are. -/
theorem plain_suggestionsValue {suggestions : Suggestions} (h : WordSized suggestions) :
    Plain (suggestionsValue suggestions) := by
  have hitem : ∀ candidate ∈ suggestions.candidates, Plain (suggestionValue candidate) := by
    intro candidate hcandidate
    obtain ⟨members, hvalue, hnames, hmembers⟩ := suggestionValue_eq candidate
    rw [hvalue]
    refine .object hnames fun member hmember => ?_
    obtain ⟨text, htext⟩ | hpriority := hmembers member hmember
    · exact htext ▸ .string text
    · exact hpriority ▸ .nat (h.priority candidate hcandidate)
  have hnames : ["suggestions", "charactersToDrop"].Nodup := by decide
  refine .object hnames (List.forall_mem_cons.mpr ⟨.array (List.forall_mem_map.mpr hitem), ?_⟩)
  exact List.forall_mem_singleton.mpr (.nat h.charactersToDrop)

/-- What the painter does where there is no terminal to paint for: it reads a value, and
prints it again, with an indentation and an order of members of its own choice. This is
asked only for values that every reader takes for the same. -/
def Reprints (paint : Painter) : Prop :=
  ∀ ⦃value : Value⦄, Plain value → ∀ (width : Nat) (painted : String),
    paint (value.indented width 0) = some painted →
      ∃ value' width', value.Reordered value' ∧ painted = value'.indented width' 0

/-- What is not painted is the value itself, in either form: in one line it never is, and over
several lines it is not without colours. -/
theorem JsonFormat.parse?_render {format : JsonFormat}
    (hcolors : format.pretty = true → format.colors = false) (paint : Painter)
    (suggestions : Suggestions) :
    parse? (format.render paint suggestions) = some (suggestionsValue suggestions) := by
  have hwritable := writable_suggestionsValue suggestions
  unfold JsonFormat.render
  split
  · rename_i hpretty
    dsimp only
    rw [hcolors hpretty, if_neg Bool.false_ne_true]
    exact parse?_indented format.indent hwritable 0
  · exact parse?_compact hwritable

/-- What is printed again is the value up to the order of members. It is read back because
the reader gets every value back from its indented form, whoever printed it. -/
theorem JsonFormat.exists_parse?_render (format : JsonFormat) {paint : Painter}
    {suggestions : Suggestions} (hpaint : Reprints paint) (hsized : WordSized suggestions) :
    ∃ value, parse? (format.render paint suggestions) = some value ∧
      (suggestionsValue suggestions).Reordered value := by
  have hwritable := writable_suggestionsValue suggestions
  unfold JsonFormat.render
  split
  · dsimp only
    split
    · cases hpainted : paint (indentedJson format.indent suggestions) with
      | none => exact ⟨_, parse?_indented format.indent hwritable 0, .refl _⟩
      | some painted =>
        obtain ⟨value', width', hreordered, rfl⟩ :=
          hpaint (plain_suggestionsValue hsized) format.indent painted hpainted
        exact ⟨value', parse?_indented width' (hwritable.reordered hreordered) 0, hreordered⟩
    · exact ⟨_, parse?_indented format.indent hwritable 0, .refl _⟩
  · exact ⟨_, parse?_compact hwritable, .refl _⟩

/-! ## Escape sequences -/

/-- Sets every bracket in bold, the way a terminal is told to: an escape sequence before it and
another behind it. -/
def boldBrackets : Painter := fun text =>
  some (String.ofList (text.toList.flatMap fun c =>
    if c ∈ ['[', ']', '\x7b', '\x7d'] then "\x1b[1m".toList ++ c :: "\x1b[0m".toList else [c]))

/-- No token begins with an escape, so neither does any JSON: the reader of tokens stops at the
first character. -/
theorem parse?_escape (rest : List Char) : parse? (String.ofList ('\x1b' :: rest)) = none := by
  have hnumber : ∀ tail, ¬ isNumber ('\x1b' :: tail) = true := by
    intro tail h
    obtain ⟨c, _, hcons, hc, -⟩ := exists_of_isNumber h
    rw [← (List.cons.inj hcons).1] at hc
    exact absurd hc (by decide)
  have htokens : Token.ofChars? ('\x1b' :: rest) = none := by
    refine (Token.ofChars?.eq_def _).trans ?_
    -- It is no blank, no mark, no quote and no letter, which leaves a number.
    iterate 9 refine (if_neg (by decide)).trans ?_
    exact if_neg (hnumber _)
  unfold parse?
  rw [String.toList_ofList, htokens]
  rfl

/-- The form over several lines begins with a bracket, since suggestions are written as an object
that has members. -/
theorem exists_toList_indentedJson (width : Nat) (suggestions : Suggestions) :
    ∃ rest, (indentedJson width suggestions).toList = '\x7b' :: rest := by
  unfold indentedJson suggestionsValue Value.ofMembers
  rw [List.map_cons, Value.indented]
  · simp only [String.toList_append]
    exact ⟨_, rfl⟩
  · exact List.cons_ne_nil _ _

end Rendering

namespace Formatter

open Json Rendering

/-- What is printed are the first candidates; a formatter without a limit prints all. -/
theorem shown_eq (formatter : Formatter) (result : Suggestions) :
    formatter.shown result = { result with
      candidates := result.candidates.take
        (formatter.maxSuggestions.getD result.candidates.length) } := by
  unfold shown
  cases formatter.maxSuggestions with
  | none =>
    show result = { result with candidates := result.candidates.take result.candidates.length }
    rw [List.take_length]
  | some limit => rfl

/-- Cutting suggestions off leaves the numbers of the others as they are. -/
theorem wordSized_shown (formatter : Formatter) {result : Suggestions} (h : WordSized result) :
    WordSized (formatter.shown result) := by
  rw [shown_eq]
  exact ⟨h.charactersToDrop, fun candidate hmem => h.priority candidate (List.mem_of_mem_take hmem)⟩

/-- **JSON output loses nothing but what is cut off** (specification, § E1.5). The form in one line,
which is never painted, is read as one value, in which the first candidates up to the limit stand in
their order with all that they say; and it has no line feed in it. Over several lines, from the
formatter or with any indentation, the same value is read unless there are colours, and the same but
for the order of members where a painter has only printed it again. The value is the one that was
written, since both forms spell its tokens; what it says is looked up in it member by member. -/
theorem exists_reported (formatter : Formatter) (paint : Painter) (result : Suggestions) :
    let first := result.candidates.take
      (formatter.maxSuggestions.getD result.candidates.length)
    let compact := { formatter with format := .json }.renderWith paint result
    let pretty := { formatter with format := .jsonPretty }.renderWith paint result
    let written := fun several width => JsonFormat.render ⟨several, formatter.colors, width⟩ paint
      ⟨first, result.charactersToDrop⟩
    (∃ value, parse? compact = some value ∧ Reports value first result.charactersToDrop ∧
      ∀ text, (text = pretty ∨ ∃ width, text = written true width) →
        (formatter.colors = false → parse? text = some value) ∧
        (Reprints paint → WordSized result →
          ∃ value', parse? text = some value' ∧ value.Reordered value' ∧
            Reports value' first result.charactersToDrop)) ∧
    (∀ width, written false width = compact) ∧ Printable compact.toList := by
  intro first compact pretty written
  have hshown : formatter.shown result = ⟨first, result.charactersToDrop⟩ :=
    formatter.shown_eq result
  have hreports : Reports (suggestionsValue (formatter.shown result)) first
      result.charactersToDrop := hshown ▸ reports_suggestionsValue _
  have hwritable := writable_suggestionsValue (formatter.shown result)
  -- The formatter is one of the forms: it indents by two spaces.
  have hforms : ∀ text, (text = pretty ∨ ∃ width, text = written true width) → ∃ width, text =
      JsonFormat.render ⟨true, formatter.colors, width⟩ paint (formatter.shown result) := by
    rintro text (rfl | ⟨width, rfl⟩)
    · exact ⟨2, rfl⟩
    · exact ⟨width, by rw [hshown]⟩
  refine ⟨⟨_, Json.parse?_compact hwritable, hreports, fun text htext => ?_⟩, fun width => ?_,
    printable_compact hwritable⟩
  -- Without colours nothing is painted; with them the painter prints a value of its own order.
  · obtain ⟨width, rfl⟩ := hforms text htext
    refine ⟨fun hcolors => JsonFormat.parse?_render (fun _ => hcolors) paint _,
      fun hpaint hsized => ?_⟩
    obtain ⟨value', hparse, hreordered⟩ :=
      JsonFormat.exists_parse?_render ⟨true, formatter.colors, width⟩ hpaint
        (formatter.wordSized_shown hsized)
    exact ⟨value', hparse, hreordered, unordered_reports _ _ hreordered hreports⟩
  · show compactJson ⟨first, result.charactersToDrop⟩ = compactJson (formatter.shown result)
    rw [hshown]

/-- A painter that sorts the members by name, on a suggestion full of characters that are escaped,
with another one cut off. What it prints is read as the sorted value, which still reports the
suggestion. -/
theorem exists_reported_sorted :
    let first : Suggestion := {
      name := "say \"hi\"\n", insertValue := "C:\\tmp", description := some "é\tè",
      kind := .argument, priority := 75 }
    let result : Suggestions := ⟨[first, { name := "main", kind := .option }], 4⟩
    let formatter : Formatter := ⟨.jsonPretty, true, some 1⟩
    let sorted : Value := .ofMembers [
      ("charactersToDrop", .ofNat 4),
      ("suggestions", .array [.ofMembers [
        ("description", .ofString "é\tè"), ("insertValue", .ofString "C:\\tmp"),
        ("kind", .ofString "argument"), ("name", .ofString "say \"hi\"\n"),
        ("priority", .ofNat 75)]])]
    let paint : Painter := fun text =>
      if text = indentedJson 2 (formatter.shown result) then some (sorted.indented 2 0) else none
    formatter.colors = true ∧ Reprints paint ∧ WordSized result ∧
    formatter.renderWith paint result = sorted.indented 2 0 ∧
    (∃ value, parse? ({ formatter with format := .json }.renderWith paint result) = some value ∧
      Reports value [first] 4 ∧ ∃ value', parse? (formatter.renderWith paint result) = some value' ∧
        value.Reordered value' ∧ Reports value' [first] 4) := by
  intro first result formatter sorted paint
  have hreordered : (suggestionsValue (formatter.shown result)).Reordered sorted := by
    refine .trans (.member [] _ _ (.item [] [] (.members ?_))) (.members (.swap _ _ []))
    exact ((List.reverse_perm [_, _, _]).symm.append_right [_, _]).trans
      ((List.Perm.swap _ _ [_]).append_left [_, _])
  have hsized : WordSized result := by
    refine ⟨by decide, List.forall_mem_cons.mpr ⟨by decide, List.forall_mem_singleton.mpr ?_⟩⟩
    decide
  -- Only one text is painted, and that text is read as one value only.
  have hreprints : Reprints paint := by
    intro value hvalue width painted hpainted
    obtain ⟨htext, hsorted⟩ := Option.ite_none_right_eq_some.mp hpainted
    have hsame : some value = some (suggestionsValue (formatter.shown result)) := by
      rw [← parse?_indented width (writable_of_plain hvalue) 0, htext]
      exact parse?_indented 2 (writable_suggestionsValue _) 0
    obtain rfl := Option.some.inj hsame
    obtain rfl := Option.some.inj hsorted
    exact ⟨sorted, 2, hreordered, rfl⟩
  have hpainted : formatter.renderWith paint result = sorted.indented 2 0 := by
    have hpaint : paint (indentedJson 2 (formatter.shown result)) = some (sorted.indented 2 0) :=
      if_pos rfl
    exact congrArg (·.getD (indentedJson 2 (formatter.shown result))) hpaint
  obtain ⟨⟨value, hparse, hreports, hall⟩, -⟩ := exists_reported formatter paint result
  exact ⟨rfl, hreprints, hsized, hpainted, value, hparse, hreports,
    (hall _ (.inl rfl)).2 hreprints hsized⟩

/-- **What is painted is no JSON**, whatever the suggestions are: the first bracket has an escape
sequence in front of it, and the reader stops there. -/
theorem parse?_painted (formatter : Formatter) (hcolors : formatter.colors = true)
    (result : Suggestions) :
    parse? ({ formatter with format := .jsonPretty }.renderWith boldBrackets result) = none := by
  obtain ⟨rest, hrest⟩ := exists_toList_indentedJson 2 (formatter.shown result)
  have hpainted : ∃ painted, boldBrackets (indentedJson 2 (formatter.shown result)) =
      some (String.ofList ('\x1b' :: painted)) := by
    unfold boldBrackets
    rw [hrest, List.flatMap_cons, if_pos (by decide)]
    exact ⟨_, rfl⟩
  obtain ⟨painted, hpainted⟩ := hpainted
  have hrender : { formatter with format := .jsonPretty }.renderWith boldBrackets result =
      String.ofList ('\x1b' :: painted) := by
    unfold renderWith JsonFormat.render
    dsimp only
    rw [if_pos rfl, if_pos hcolors]
    exact congrArg (·.getD (indentedJson 2 (formatter.shown result))) hpainted
  rw [hrender]
  exact parse?_escape painted

/-- One suggestion, with colours on a terminal, and with a line separator in its name: the form over
several lines is no JSON, and that in one line has the separator in it as it is. -/
theorem unread_on_terminal :
    let result : Suggestions := ⟨[{ name := "two\u2028lines", kind := .argument }], 0⟩
    parse? ((⟨.jsonPretty, true, none⟩ : Formatter).renderWith boldBrackets result) = none ∧
    '\u2028' ∈ ((⟨.json, true, none⟩ : Formatter).renderWith boldBrackets result).toList := by
  intro result
  exact ⟨parse?_painted ⟨.jsonPretty, true, none⟩ rfl result, by decide +kernel⟩

end Formatter

end CommandCompletion
