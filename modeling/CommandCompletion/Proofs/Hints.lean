/-
The hint after the cursor is what the first completion adds.

A line editor asks twice: the completer for replacements of a span, the hinter for
a text to show behind the line. Each counts characters from the end of the line and
finds the place in bytes on its own. A cut that such a count leads to falls between
two characters, so neither of them fails, and `HintsAtFirst` says how what they
answer belongs together.

The hinter keeps the hint of the last look, as it is without colours, and nothing
of the looks before (`Hinter.exists_lookAll`). What it offers to insert next goes up
to the first separator (`IsNextPart`).
-/
import CommandCompletion.Editor.Completer
import CommandCompletion.Editor.Hinter
import CommandCompletion.Proofs.Remembering
import CommandCompletion.Proofs.Splitting

set_option autoImplicit false

namespace CommandCompletion

/-! ## Searching in bytes -/

namespace Text

variable {p : Char → Bool} {cs : List Char}

/-- Where no character is of the class, none is found. -/
theorem findByte?_eq_none (h : ∀ c ∈ cs, p c = false) : findByte? p cs = none := by
  induction cs with
  | nil => rfl
  | cons c cs ih =>
    rw [List.forall_mem_cons] at h
    rw [findByte?, if_neg (Bool.eq_false_iff.mp h.1), ih h.2, Option.map_none]

/-- The first one is found behind those that are not of the class, at the offset in bytes that these
take up. -/
theorem findByte?_append {front back : List Char} {c : Char} (hfront : ∀ c ∈ front, p c = false)
    (hc : p c = true) : findByte? p (front ++ c :: back) = some (byteLength front) := by
  induction front with
  | nil => exact if_pos hc
  | cons first front ih =>
    rw [List.forall_mem_cons] at hfront
    rw [List.cons_append, findByte?, if_neg (Bool.eq_false_iff.mp hfront.1), ih hfront.2,
      Option.map_some, byteLength_cons]

end Text

namespace Editor

/-! ## Cuts -/

variable {line hint value start text : String} {count : Nat} {shell : Shell}
variable {front back : List Char}

/-- A cut between two characters gives what is left of it. -/
theorem leftOf?_of_append (h : text.toList = front ++ back) :
    leftOf? text (Text.byteLength front) = some (String.ofList front) := by
  unfold leftOf?
  rw [h, Text.splitAtByte?_append]
  rfl

/-- And what is right of it. -/
theorem rightOf?_of_append (h : text.toList = front ++ back) :
    rightOf? text (Text.byteLength front) = some (String.ofList back) := by
  unfold rightOf?
  rw [h, Text.splitAtByte?_append]
  rfl

/-- At its end, all of the line is left of the cursor. -/
theorem leftOf?_end (line : String) : leftOf? line (Text.byteLength line.toList) = some line := by
  have hcut := leftOf?_of_append (List.append_nil line.toList).symm
  rwa [String.ofList_toList] at hcut

/-- Where the replaced part begins, the line can be cut, since counting characters from the end
leads between two of them. -/
theorem leftOf?_replaceStart (line : String) (count : Nat) :
    leftOf? line (replaceStart line count) = some (splitEnd line count).1 := by
  have hcut := leftOf?_of_append (toList_splitEnd_append line count)
  rwa [String.ofList_toList] at hcut

/-- What is right of that cut is the part that is replaced. -/
theorem rightOf?_replaceStart (line : String) (count : Nat) :
    rightOf? line (replaceStart line count) = some (splitEnd line count).2 := by
  have hcut := rightOf?_of_append (toList_splitEnd_append line count)
  rwa [String.ofList_toList] at hcut

/-- The bytes from there to the end are the replaced part. -/
theorem slice?_replaceStart (line : String) (count : Nat) :
    Text.slice? (replaceStart line count) (Text.byteLength line.toList) line.toList =
      some (splitEnd line count).2.toList := by
  have hslice := Text.slice?_append (splitEnd line count).1.toList (splitEnd line count).2.toList
  rwa [← toList_splitEnd_append] at hslice

/-! ## What a candidate adds -/

/-- Properly extends `start`: begins with it and goes on. -/
def GoesOn (start value : String) : Prop := ∃ rest, rest ≠ "" ∧ value = start ++ rest

/-- What goes on behind a beginning is found by dropping as many characters as that has. -/
theorem continuation?_append {rest : String} (hrest : rest ≠ "") :
    continuation? start (start ++ rest) = some rest := by
  have hbegins : Text.beginsWith start (start ++ rest) = true := by
    rw [Text.beginsWith, String.toList_append, List.isPrefixOf_iff_prefix]
    exact List.prefix_append _ _
  have hlonger : start.length < (start ++ rest).length := by
    have hpos : rest.length ≠ 0 := fun hzero => hrest (String.length_eq_zero_iff.mp hzero)
    rw [String.length_append]
    omega
  unfold continuation?
  rw [hbegins, Bool.true_and, if_pos (decide_eq_true hlonger)]
  have hdrop : (start ++ rest).toList.drop start.length = rest.toList := by
    rw [String.toList_append, ← String.length_toList, List.drop_left]
  rw [hdrop, String.ofList_toList]

/-- Nothing is found where the value does not begin so, and nothing where it ends there too. -/
theorem continuation?_of_not_goesOn (h : ¬ GoesOn start value) :
    continuation? start value = none := by
  unfold continuation?
  apply if_neg
  intro hgoes
  rw [Bool.and_eq_true, decide_eq_true_eq, Text.beginsWith, List.isPrefixOf_iff_prefix] at hgoes
  obtain ⟨⟨rest, hvalue⟩, hlonger⟩ := hgoes
  refine h ⟨String.ofList rest, ?_, ?_⟩
  · intro hnone
    have hempty : rest = [] := by
      have hlist := congrArg String.toList hnone
      rwa [String.toList_ofList] at hlist
    rw [hempty, List.append_nil] at hvalue
    rw [String.toList_injective hvalue] at hlonger
    exact Nat.lt_irrefl _ hlonger
  · apply String.toList_injective
    rw [String.toList_append, String.toList_ofList, hvalue]

/-! ## One hint -/

/-- With the hint the line is what the first completion makes of it: what is left of its span is
kept, and its value comes behind. -/
def CompletesWith (line : String) (completions : List Completion) (hint : String) : Prop :=
  ∃ first rest kept, completions = first :: rest ∧ leftOf? line first.span.start = some kept ∧
    line ++ hint = kept ++ first.value

/-- There is no completion, or the first one does not properly extend the text that
its span replaces. -/
def AddsNothing (line : String) (completions : List Completion) : Prop :=
  completions = [] ∨ ∃ first rest replaced, completions = first :: rest ∧
    Text.slice? first.span.start first.span.stop line.toList = some replaced ∧
      ¬ GoesOn (String.ofList replaced) first.value

/-- Ends in a blank, so that no word is being typed. -/
def EndsInBlank (line : String) : Prop :=
  ∃ c, line.toList.getLast? = some c ∧ Text.isBlank c = true

/-- The hint for a line and the completions at its end belong together (specification, § E2.6): it
is what the first one adds, and there is none just where no word is being typed or nothing is added.
-/
structure HintsAtFirst (line : String) (completions : List Completion) (hint : String) : Prop where
  completes : hint ≠ "" → CompletesWith line completions hint
  empty_iff : hint = "" ↔
    Text.isBlankText line = true ∨ EndsInBlank line ∨ AddsNothing line completions

section Candidates

variable {best : Suggestion} {others : List Suggestion} {dropped : Nat}

/-- The hint is looked for with the best suggestion, against the part of the line that it would
replace. -/
theorem hintOf?_cons : hintOf? line (some ⟨best :: others, dropped⟩) =
    some ((continuation? (splitEnd line dropped).2 best.insertValue).getD "") := by
  show (rightOf? line (replaceStart line dropped)).bind _ = _
  rw [rightOf?_replaceStart]
  rfl

/-- The first completion puts its value where the hint begins to count. -/
theorem completesWith_cons (hvalue : best.insertValue = (splitEnd line dropped).2 ++ hint) :
    CompletesWith line (completions shell line ⟨best :: others, dropped⟩) hint := by
  refine ⟨_, _, (splitEnd line dropped).1, rfl, leftOf?_replaceStart line dropped, ?_⟩
  dsimp only
  rw [hvalue, ← String.append_assoc, splitEnd_append]

/-- With a suggestion there, nothing is added just where it does not go on from the replaced part.
-/
theorem addsNothing_cons_iff :
    AddsNothing line (completions shell line ⟨best :: others, dropped⟩) ↔
      ¬ GoesOn (splitEnd line dropped).2 best.insertValue := by
  have hslice := slice?_replaceStart line dropped
  constructor
  · rintro (hnone | ⟨first, rest, replaced, hfirst, hreplaced, hstays⟩)
    · cases hnone
    · cases hfirst
      dsimp only at hreplaced hstays
      rw [hslice, Option.some_inj] at hreplaced
      rwa [← hreplaced, String.ofList_toList] at hstays
  · intro hstays
    refine .inr ⟨_, _, _, rfl, hslice, ?_⟩
    rwa [String.ofList_toList]

end Candidates

/-- The completions for suggestions, none if there are none. -/
def completionsOf (shell : Shell) (line : String) (suggestions : Option Suggestions) :
    List Completion :=
  (suggestions.map (completions shell line)).getD []

/-- **The hint is what the first completion adds.** Without a suggestion there is none of either;
with one, both the hint and the completion go by the same cut of the line. -/
theorem exists_hintOf (shell : Shell) (line : String) (suggestions : Option Suggestions) :
    ∃ hint, hintOf? line suggestions = some hint ∧
      (hint ≠ "" → CompletesWith line (completionsOf shell line suggestions) hint) ∧
      (hint = "" ↔ AddsNothing line (completionsOf shell line suggestions)) := by
  match suggestions with
  | none => exact ⟨"", rfl, fun h => absurd rfl h, iff_of_true rfl (.inl rfl)⟩
  | some ⟨[], dropped⟩ => exact ⟨"", rfl, fun h => absurd rfl h, iff_of_true rfl (.inl rfl)⟩
  | some ⟨best :: others, dropped⟩ =>
    show ∃ hint, _ ∧ (_ → CompletesWith line (completions shell line ⟨best :: others, dropped⟩) _) ∧
      (_ ↔ AddsNothing line (completions shell line ⟨best :: others, dropped⟩))
    rw [addsNothing_cons_iff, hintOf?_cons]
    -- The best suggestion goes on from what is typed, or it replaces it by something else.
    by_cases hgoes : GoesOn (splitEnd line dropped).2 best.insertValue
    · obtain ⟨hint, hhint, hvalue⟩ := hgoes
      have hcontinued : continuation? (splitEnd line dropped).2 best.insertValue = some hint := by
        rw [hvalue]
        exact continuation?_append hhint
      rw [hcontinued]
      refine ⟨hint, rfl, fun _ => completesWith_cons hvalue, ?_⟩
      exact iff_of_false hhint (not_not_intro ⟨hint, hhint, hvalue⟩)
    · rw [continuation?_of_not_goesOn hgoes]
      exact ⟨"", rfl, fun h => absurd rfl h, iff_of_true rfl hgoes⟩

example : hintOf? "cd ./ün" (some {
    candidates := [{ name := "ünïcode", kind := .path }]
    charactersToDrop := 2 }) = some "ïcode" := by
  decide +kernel

/-- At the end of a line a hint is wanted unless it is blank or ends in a blank, where no word is
being typed. -/
theorem wantsHint_end_iff : wantsHint line (Text.byteLength line.toList) = true ↔
    ¬ (Text.isBlankText line = true ∨ EndsInBlank line) := by
  have hlast : line.toList.getLast?.any Text.isBlank = true ↔ EndsInBlank line :=
    Option.any_eq_true _ _
  unfold wantsHint
  rw [beq_self_eq_true, Bool.true_and, Bool.and_eq_true, Bool.not_eq_true', Bool.not_eq_true',
    ← Bool.not_eq_true, ← Bool.not_eq_true, hlast, not_or]

/-! ## The next part -/

/-- A first part of a hint, up to its first separator: it has no separator before its end, and it
ends in one unless it is the whole hint. -/
structure IsNextPart (shell : Shell) (hint part : String) : Prop where
  begins : ∃ rest, hint = part ++ rest
  nonempty : hint ≠ "" → part ≠ ""
  separators : ∀ c ∈ part.toList.dropLast, shell.isSeparator c = false
  ends : part = hint ∨ endsInSeparator shell part = true

/-- The cuts that the first separator leads to fall before and behind it, so neither fails. -/
theorem nextPart?_of_separator {separator : Char} (hhint : hint.toList = front ++ separator :: back)
    (hplain : ∀ c ∈ front, shell.isSeparator c = false)
    (hseparator : shell.isSeparator separator = true) :
    nextPart? shell hint = some (String.ofList (front ++ [separator])) := by
  have hsize : Text.byteLength front + separator.utf8Size =
      Text.byteLength (front ++ [separator]) := by
    rw [Text.byteLength_append]
    rfl
  unfold nextPart?
  rw [hhint, Text.findByte?_append hplain hseparator]
  show (rightOf? hint _).bind _ = _
  rw [rightOf?_of_append hhint, Option.bind_some, String.toList_ofList]
  dsimp only
  rw [hsize]
  -- Cut behind the separator, it belongs to what is left of the cut.
  rw [List.append_cons] at hhint
  exact leftOf?_of_append hhint

/-- **The next part of a hint can always be cut out of it.** Without a separator it is the whole
hint, and with one all up to the first. -/
theorem exists_nextPart (shell : Shell) (hint : String) :
    ∃ part, nextPart? shell hint = some part ∧ IsNextPart shell hint part := by
  cases hfound : hint.toList.find? shell.isSeparator with
  | none =>
    have hnone : ∀ c ∈ hint.toList, shell.isSeparator c = false := by
      simpa using List.find?_eq_none.mp hfound
    have hpart : nextPart? shell hint = some hint := by
      unfold nextPart?
      rw [Text.findByte?_eq_none hnone]
    refine ⟨hint, hpart, ⟨"", String.append_empty.symm⟩, id, ?_, .inl rfl⟩
    intro c hc
    exact hnone c (List.dropLast_subset _ hc)
  | some separator =>
    obtain ⟨hseparator, front, back, hhint, hfront⟩ := List.find?_eq_some_iff_append.mp hfound
    have hplain : ∀ c ∈ front, shell.isSeparator c = false := by simpa using hfront
    have hlist : (String.ofList (front ++ [separator])).toList = front ++ [separator] :=
      String.toList_ofList
    refine ⟨_, nextPart?_of_separator hhint hplain hseparator, ⟨String.ofList back, ?_⟩, ?_, ?_,
      .inr ?_⟩
    · apply String.toList_injective
      rw [hhint, String.toList_append, hlist, String.toList_ofList, ← List.append_cons]
    · intro _ hempty
      rw [hempty] at hlist
      exact List.append_ne_nil_of_right_ne_nil front (List.cons_ne_nil _ _) hlist.symm
    · rw [hlist, List.dropLast_concat]
      exact hplain
    · unfold endsInSeparator
      rw [hlist, List.getLast?_concat]
      exact hseparator

/-! ## Asking -/

/-- At the end of a line, what is suggested for it is completed, and the memory is as it is left by
asking. -/
theorem run_complete_end {σ : Type} {advisor : Advisor σ} {memory after : Memory σ}
    {runtime : Bool} {suggestions : Option Suggestions}
    (h : (advisor.suggestions runtime line).run memory = (suggestions, after)) :
    (advisor.complete runtime line (Text.byteLength line.toList)).run memory =
      (some (completionsOf advisor.shell line suggestions), after) := by
  unfold Advisor.complete
  rw [leftOf?_end]
  dsimp only
  rw [Recall.run_bind_of h]
  cases suggestions <;> rfl

/-- No colour is put on nothing, so an empty hint is shown as such. -/
theorem shown_empty (look : Look) : look.shown "" = "" := by
  unfold Look.shown
  split <;> rfl

namespace Hinter

variable {σ : Type}

/-- A look never fails, and what is remembered is the hint, however it is shown: colours change the
text that is put behind the line and nothing else. -/
theorem exists_handle (hinter : Hinter σ) (look : Look) (memory : Memory σ) :
    ∃ hint after, ∀ coloured, (hinter.handle { look with coloured := coloured }).run memory =
      (some (Look.shown { look with coloured := coloured } hint, { hinter with current := hint }),
        after) := by
  obtain ⟨⟨suggestions, asked⟩, hasked⟩ : ∃ result,
      (hinter.suggestions look.runtime look.line).run memory = result := ⟨_, rfl⟩
  by_cases hwants : wantsHint look.line look.position = true
  · obtain ⟨hint, hhint, -, -⟩ := exists_hintOf hinter.shell look.line suggestions
    refine ⟨hint, asked, fun coloured => ?_⟩
    unfold handle
    rw [if_pos hwants, Recall.run_bind_of hasked, hhint]
    rfl
  · -- Nobody is asked, and nothing is kept of the hint before.
    refine ⟨"", memory, fun coloured => ?_⟩
    unfold handle
    rw [if_neg hwants, shown_empty]
    rfl

/-- **At the end of a line, what is hinted at is what the first completion adds**, asked from the
same memory. Both ask the same of the engine, so the two answers are made of the same suggestions.
-/
theorem exists_hintsAtFirst (hinter : Hinter σ) (memory : Memory σ) (runtime : Bool)
    (line : String) : ∃ completions hint completed hinted,
      (hinter.complete runtime line (Text.byteLength line.toList)).run memory =
        (some completions, completed) ∧
      (hinter.handle {
        line := line
        position := Text.byteLength line.toList
        runtime := runtime
        coloured := false }).run memory =
          (some (hint, { hinter with current := hint }), hinted) ∧
      HintsAtFirst line completions hint := by
  obtain ⟨⟨suggestions, asked⟩, hasked⟩ : ∃ result,
      (hinter.suggestions runtime line).run memory = result := ⟨_, rfl⟩
  have hcompletions := run_complete_end hasked
  -- The hinter asks only if a hint is wanted; the completer always asks.
  by_cases hwants : wantsHint line (Text.byteLength line.toList) = true
  · obtain ⟨hint, hhint, hcompletes, hnothing⟩ := exists_hintOf hinter.shell line suggestions
    refine ⟨_, hint, asked, asked, hcompletions, ?_, hcompletes, ?_⟩
    · unfold handle
      dsimp only
      rw [if_pos hwants, Recall.run_bind_of hasked, hhint]
      rfl
    · have htyping := wantsHint_end_iff.mp hwants
      rw [hnothing, ← or_assoc, or_iff_right htyping]
  · refine ⟨_, "", asked, memory, hcompletions, ?_, fun h => absurd rfl h, ?_⟩
    · unfold handle
      dsimp only
      rw [if_neg hwants]
      rfl
    · rw [wantsHint_end_iff, Classical.not_not] at hwants
      rw [← or_assoc]
      exact iff_of_true rfl (.inl hwants)

/-! ## One look after the other -/

/-- What is shown for some looks, and the hinter after them. Each look begins with the hinter and
the memory that the one before left. -/
def lookAll (hinter : Hinter σ) : List Look → Recall σ (Option (List String × Hinter σ))
  | [] => return some ([], hinter)
  | look :: looks => do
    match ← hinter.handle look with
    | none => return none
    | some (shown, hinter) =>
      match ← hinter.lookAll looks with
      | none => return none
      | some (later, hinter) => return some (shown :: later, hinter)

/-- **The hinter remembers the hint of the last look.** With colours or without, looks never fail
and leave the same behind; `hints` are what they give without. By induction on the looks. -/
theorem exists_lookAll (hinter : Hinter σ) (looks : List Look) (memory : Memory σ) :
    ∃ hints after, hints.length = looks.length ∧
      (hinter.lookAll (looks.map fun look => { look with coloured := false })).run memory =
        (some (hints, { hinter with current := hints.getLastD hinter.current }), after) ∧
      (hinter.lookAll looks).run memory =
        (some (List.zipWith Look.shown looks hints,
          { hinter with current := hints.getLastD hinter.current }), after) := by
  -- The induction goes on from the hinter that the first look leaves, so it is over all.
  induction looks generalizing hinter memory with
  | nil => exact ⟨[], memory, rfl, rfl, rfl⟩
  | cons look looks ih =>
    obtain ⟨hint, middle, hhandle⟩ := hinter.exists_handle look memory
    obtain ⟨hints, after, hlength, hplain, hshown⟩ := ih { hinter with current := hint } middle
    refine ⟨hint :: hints, after, by rw [List.length_cons, List.length_cons, hlength], ?_, ?_⟩
    · rw [List.map_cons, List.getLastD_cons, lookAll, Recall.run_bind_of (hhandle false)]
      dsimp only
      rw [Recall.run_bind_of hplain]
      rfl
    · rw [List.getLastD_cons, lookAll, Recall.run_bind_of (hhandle look.coloured)]
      dsimp only
      rw [Recall.run_bind_of hshown]
      rfl

/-- **The inline hint is the first completion** (specification, § E2.6). In any memory, a hint at
the end of a line is what the first completion there adds, and there is none just where nothing is
being typed or added. After any looks the whole hint is that of the last one without colours, what
was remembered before if there were none, and a next part of it can be cut out. No cut fails, of the
line or of a hint. -/
theorem hints_at_first_completion (hinter : Hinter σ) (memory : Memory σ) :
    (∀ runtime line, ∃ completions hint next completed hinted,
      (hinter.complete runtime line (Text.byteLength line.toList)).run memory =
        (some completions, completed) ∧
      (hinter.handle {
        line := line
        position := Text.byteLength line.toList
        runtime := runtime
        coloured := false }).run memory = (some (hint, next), hinted) ∧
      HintsAtFirst line completions hint) ∧
    ∀ looks, ∃ hints last after part, hints.length = looks.length ∧
      (hinter.lookAll (looks.map fun look => { look with coloured := false })).run memory =
        (some (hints, last), after) ∧
      (hinter.lookAll looks).run memory =
        (some (List.zipWith Look.shown looks hints, last), after) ∧
      last.completeHint = hints.getLastD hinter.completeHint ∧
      last.nextHintToken? = some part ∧ IsNextPart hinter.shell last.completeHint part := by
  constructor
  · intro runtime line
    obtain ⟨completions, hint, completed, hinted, hcompletes, hhints, hfirst⟩ :=
      hinter.exists_hintsAtFirst memory runtime line
    exact ⟨completions, hint, _, completed, hinted, hcompletes, hhints, hfirst⟩
  · intro looks
    obtain ⟨hints, after, hlength, hplain, hshown⟩ := hinter.exists_lookAll looks memory
    obtain ⟨part, hpart, hnext⟩ := exists_nextPart hinter.shell (hints.getLastD hinter.current)
    exact ⟨hints, _, after, part, hlength, hplain, hshown, rfl, hpart, hnext⟩

end Hinter

end Editor

end CommandCompletion
