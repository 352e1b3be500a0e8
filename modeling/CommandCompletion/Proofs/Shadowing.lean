/-
What a merge of options keeps and what it leaves out.

`CommandOption.merge` goes through the new options one by one and adds those
that share no alias with what is there by then. So which of two options that
share an alias is kept depends only on which came first, and options that were
apart from each other before stay apart (`pairwise_merge`). Where the new
options are apart from each other already, only the old ones can shadow them,
and the merge is a filter (`merge_eq_append_filter`).
-/
import CommandCompletion.Grammar.Inheritance

set_option autoImplicit false

namespace CommandCompletion.CommandOption

/-- No alias in common. `merge` never keeps two options of which this fails, whatever it is given,
unless they were together in the list it started from. -/
def Apart (a b : CommandOption) : Prop := a.sharesName b = false

/-- Shares an alias with one of `options`. -/
def isShadowedBy (option : CommandOption) (options : List CommandOption) : Bool :=
  options.any fun taken => taken.sharesName option

variable {first more before after : List CommandOption} {option : CommandOption}

/-! ## Adding one option -/

/-- A shadowed option is left out, and what is there stays as it is. -/
theorem addUnshadowed_of_shadowed (h : option.isShadowedBy first = true) :
    addUnshadowed first option = first := by
  unfold addUnshadowed
  exact if_pos h

/-- A free option is added at the end, behind those that came first. -/
theorem addUnshadowed_of_free (h : option.isShadowedBy first = false) :
    addUnshadowed first option = first ++ [option] := by
  unfold addUnshadowed
  exact if_neg (by rw [isShadowedBy] at h; rw [h]; exact Bool.false_ne_true)

/-- A free option is apart from every one that is there. -/
theorem apart_of_free (h : option.isShadowedBy first = false) :
    ∀ taken ∈ first, taken.Apart option := by
  intro taken hmem
  rw [isShadowedBy, List.any_eq_false] at h
  exact Bool.eq_false_iff.mpr (h taken hmem)

/-- One step keeps options apart: only a free option is added, and it is apart from all. -/
theorem pairwise_addUnshadowed (h : first.Pairwise Apart) (option : CommandOption) :
    (addUnshadowed first option).Pairwise Apart := by
  cases hshadowed : option.isShadowedBy first with
  | true =>
    rw [addUnshadowed_of_shadowed hshadowed]
    exact h
  | false =>
    rw [addUnshadowed_of_free hshadowed, List.pairwise_append]
    refine ⟨h, List.pairwise_singleton _ _, ?_⟩
    intro taken hmem other hother
    rw [List.mem_singleton.mp hother]
    exact apart_of_free hshadowed taken hmem

/-! ## Merging -/

/-- Options can be merged in two goes; this is how the merge is cut at one of them. -/
theorem merge_append (first before after : List CommandOption) :
    merge first (before ++ after) = merge (merge first before) after :=
  List.foldl_append

/-- Nothing is made up: an option of the merge was there before, or is one of those that were added.
-/
theorem mem_of_mem_merge (h : option ∈ merge first more) : option ∈ first ∨ option ∈ more := by
  induction more generalizing first with
  | nil => exact .inl h
  | cons next more ih =>
    rw [merge_cons] at h
    -- What was there after one step was there before, or is the option of that step.
    rcases ih h with hfirst | hmore
    · cases hshadowed : next.isShadowedBy first with
      | true =>
        rw [addUnshadowed_of_shadowed hshadowed] at hfirst
        exact .inl hfirst
      | false =>
        rw [addUnshadowed_of_free hshadowed, List.mem_append, List.mem_singleton] at hfirst
        rcases hfirst with hfirst | rfl
        · exact .inl hfirst
        · exact .inr List.mem_cons_self
    · exact .inr (List.mem_cons_of_mem _ hmore)

/-- Options that are apart from each other stay so. The induction is on the options to be added,
with those that are there general; the step is `pairwise_addUnshadowed`. -/
theorem pairwise_merge (h : first.Pairwise Apart) (more : List CommandOption) :
    (merge first more).Pairwise Apart := by
  induction more generalizing first with
  | nil => exact h
  | cons next more ih =>
    rw [merge_cons]
    exact ih (pairwise_addUnshadowed h next)

/-- An option is kept, or one that was kept before it shares an alias with it: later declarations
never shadow earlier ones of the same name (specification, § 4.2). The list is cut at the option,
and what is merged after it can only add. -/
theorem mem_merge_or_shadowed (first before : List CommandOption) (option : CommandOption)
    (after : List CommandOption) :
    option ∈ merge first (before ++ option :: after) ∨
      ∃ taken ∈ merge first before, taken.sharesName option = true := by
  -- The options before it are merged first, so whatever shadows it is there already.
  rw [merge_append, merge_cons]
  cases hshadowed : option.isShadowedBy (merge first before) with
  | true =>
    right
    exact List.any_eq_true.mp hshadowed
  | false =>
    left
    rw [addUnshadowed_of_free hshadowed]
    exact (isPrefix_merge _ after).subset (List.mem_append_right _ List.mem_cons_self)

/-- Merging options that are apart from each other is leaving out the shadowed ones. The options of
one command are usually apart, and then the merge does not depend on the order in which it looks at
them; in general it does, and only `mem_merge_or_shadowed` holds. -/
theorem merge_eq_append_filter (first : List CommandOption) (h : more.Pairwise Apart) :
    merge first more = first ++ more.filter fun option => !option.isShadowedBy first := by
  -- The options added on the way are apart from those that are still to come, so
  -- it is enough to look at `first`.
  suffices hadded : ∀ added : List CommandOption,
      (∀ taken ∈ added, ∀ option ∈ more, taken.Apart option) →
      merge (first ++ added) more =
        first ++ added ++ more.filter fun option => !option.isShadowedBy first by
    simpa using hadded [] (by simp)
  induction more with
  | nil => simp
  | cons next more ih =>
    intro added hadded
    obtain ⟨hnext, hmore⟩ := List.pairwise_cons.mp h
    have hfree : next.isShadowedBy (first ++ added) = next.isShadowedBy first := by
      have hnone : next.isShadowedBy added = false := by
        rw [isShadowedBy, List.any_eq_false]
        intro taken hmem
        rw [hadded taken hmem next List.mem_cons_self]
        exact Bool.false_ne_true
      rw [isShadowedBy, List.any_append]
      exact (congrArg (_ || ·) hnone).trans (Bool.or_false _)
    rw [merge_cons, List.filter_cons]
    cases hshadowed : next.isShadowedBy first with
    | true =>
      rw [addUnshadowed_of_shadowed (hfree.trans hshadowed)]
      simp only [Bool.not_true, Bool.false_eq_true, if_false]
      exact ih hmore added fun taken hmem other hother =>
        hadded taken hmem other (List.mem_cons_of_mem _ hother)
    | false =>
      rw [addUnshadowed_of_free (hfree.trans hshadowed), List.append_assoc]
      simp only [Bool.not_false, if_true]
      rw [ih hmore (added ++ [next])]
      · simp
      · intro taken hmem other hother
        rcases List.mem_append.mp hmem with hmem | hmem
        · exact hadded taken hmem other (List.mem_cons_of_mem _ hother)
        · rw [List.mem_singleton.mp hmem]
          exact hnext other hother

end CommandCompletion.CommandOption
