/-
The order in which candidates are offered.

`Suggestion.Precedes` says the order in words: by falling priority, then what was
typed itself, then by length, then alphabetically. It is what `rankOrder`
computes, so it is transitive, and two candidates of which neither precedes the
other have the same name.

`rank` sorts by it and then keeps the first candidate of each insert value
(`isRanked_rank`). Sorting is stable: among the candidates of one value the best
is kept, and among several that are equally good the one that came first.
-/
import CommandCompletion.Proofs.Offered
import Mathlib.Data.List.Basic

set_option autoImplicit false

namespace CommandCompletion.Suggestion

variable {typed : String} {a b c kept candidate : Suggestion}
variable {all offered before after candidates : List Suggestion} {seen : List String}

/-! ## The order -/

/-- The candidate is what was typed, where anything was. -/
def IsExact (typed : String) (candidate : Suggestion) : Prop :=
  typed ≠ "" ∧ candidate.name = typed

/-- Is offered before: has a higher priority, or else is what was typed and the other is not, or
else is shorter in bytes, or else comes first alphabetically (specification, § E2.5, recommendation
builder). Candidates of different names are never tied. -/
def Precedes (typed : String) (a b : Suggestion) : Prop :=
  b.priority < a.priority ∨ a.priority = b.priority ∧
    (IsExact typed a ∧ ¬ IsExact typed b ∨ (IsExact typed a ↔ IsExact typed b) ∧
      (Text.byteLength a.name.toList < Text.byteLength b.name.toList ∨
        Text.byteLength a.name.toList = Text.byteLength b.name.toList ∧ a.name < b.name))

theorem exactness_of_isExact (h : IsExact typed candidate) :
    rankOrder.exactness typed candidate = 1 := if_pos h

theorem exactness_of_not_isExact (h : ¬ IsExact typed candidate) :
    rankOrder.exactness typed candidate = 0 := if_neg h

theorem exactness_lt_iff :
    rankOrder.exactness typed b < rankOrder.exactness typed a ↔
      IsExact typed a ∧ ¬ IsExact typed b := by
  by_cases ha : IsExact typed a <;> by_cases hb : IsExact typed b <;>
    simp [exactness_of_isExact, exactness_of_not_isExact, ha, hb]

theorem exactness_eq_iff :
    rankOrder.exactness typed b = rankOrder.exactness typed a ↔
      (IsExact typed a ↔ IsExact typed b) := by
  by_cases ha : IsExact typed a <;> by_cases hb : IsExact typed b <;>
    simp [exactness_of_isExact, exactness_of_not_isExact, ha, hb]

/-- The comparison is the order in words. -/
theorem rankOrder_eq_lt_iff : rankOrder typed a b = .lt ↔ Precedes typed a b := by
  have hnames : compare a.name b.name = .lt ↔ a.name < b.name := compareOfLessAndEq_eq_lt
  unfold rankOrder Precedes
  simp only [Ordering.then_eq_lt, Nat.compare_eq_lt, Nat.compare_eq_eq, exactness_lt_iff,
    exactness_eq_iff, hnames]
  rw [eq_comm]

/-- Four comparisons in turn, of which two are turned around. In this form the library knows that
the comparison is oriented and transitive, so neither has to be proved for the order in words. -/
theorem rankOrder_eq_compareLex :
    rankOrder typed =
      compareLex (fun a b => compareOn priority b a)
        (compareLex (fun a b => compareOn (rankOrder.exactness typed) b a)
          (compareLex (compareOn fun candidate => Text.byteLength candidate.name.toList)
            (compareOn name))) := rfl

instance : Std.TransCmp (rankOrder typed) := by
  have hpriority : Std.TransCmp fun a b : Suggestion => compareOn priority b a := .opposite
  have hexactness : Std.TransCmp fun a b => compareOn (rankOrder.exactness typed) b a :=
    .opposite
  rw [rankOrder_eq_compareLex]
  infer_instance

theorem rankOrder_self : rankOrder typed a a = .eq := Std.ReflCmp.compare_self

theorem not_precedes_self : ¬ Precedes typed a a := by
  rw [← rankOrder_eq_lt_iff, rankOrder_self]
  simp

/-- What the sorting asks is whether the other one does not precede. -/
theorem isLE_rankOrder_iff : (rankOrder typed a b).isLE ↔ ¬ Precedes typed b a := by
  rw [← rankOrder_eq_lt_iff]
  constructor
  · exact Std.OrientedCmp.not_lt_of_isLE
  · intro h
    by_contra hle
    exact h (Std.OrientedCmp.lt_of_not_isLE hle)

/-- Only candidates of one name are tied. -/
theorem precedes_of_name_ne (hne : a.name ≠ b.name) (h : ¬ Precedes typed b a) :
    Precedes typed a b := by
  have hle : (rankOrder typed a b).isLE := isLE_rankOrder_iff.mpr h
  rw [← rankOrder_eq_lt_iff]
  rcases Ordering.isLE_iff_eq_lt_or_eq_eq.mp hle with hlt | heq
  · exact hlt
  · unfold rankOrder at heq
    simp only [Ordering.then_eq_eq, Std.LawfulEqOrd.compare_eq_iff_eq] at heq
    exact absurd heq.2.2.2 hne

theorem isLE_rankOrder_trans (a b c : Suggestion) (hab : (rankOrder typed a b).isLE)
    (hbc : (rankOrder typed b c).isLE) : (rankOrder typed a c).isLE :=
  Std.TransCmp.isLE_trans hab hbc

theorem isLE_rankOrder_total (a b : Suggestion) :
    ((rankOrder typed a b).isLE || (rankOrder typed b a).isLE) = true := by
  rw [Bool.or_eq_true, isLE_rankOrder_iff, isLE_rankOrder_iff]
  by_contra h
  push Not at h
  obtain ⟨hba, hab⟩ := h
  rw [← rankOrder_eq_lt_iff] at hba hab
  exact Std.OrientedCmp.not_lt_of_lt hba hab

/-! ## Sorting -/

/-- The candidates in rank order, ties in the order in which they came. -/
def sorted (typed : String) (candidates : List Suggestion) : List Suggestion :=
  candidates.mergeSort fun a b => (rankOrder typed a b).isLE

theorem rank_eq_keepFirst : rank typed all = keepFirst [] (sorted typed all) := rfl

theorem pairwise_sorted : (sorted typed all).Pairwise fun a b => ¬ Precedes typed b a := by
  have hordered : (sorted typed all).Pairwise fun a b => (rankOrder typed a b).isLE :=
    List.pairwise_mergeSort isLE_rankOrder_trans isLE_rankOrder_total all
  exact hordered.imp isLE_rankOrder_iff.mp

theorem mem_sorted : candidate ∈ sorted typed all ↔ candidate ∈ all := List.mem_mergeSort

theorem count_sorted : (sorted typed all).count candidate = all.count candidate :=
  (List.mergeSort_perm _ _).count_eq candidate

/-- Sorting is stable: what is in order already stays as it is. Of the sorting algorithm nothing
else is used here but that it permutes and that its result is in order. -/
theorem sublist_sorted (hsublist : List.Sublist candidates all)
    (hordered : candidates.Pairwise fun a b => ¬ Precedes typed b a) :
    List.Sublist candidates (sorted typed all) := by
  have hle : candidates.Pairwise fun a b => (rankOrder typed a b).isLE :=
    hordered.imp isLE_rankOrder_iff.mpr
  exact List.sublist_mergeSort isLE_rankOrder_trans isLE_rankOrder_total hle hsublist

/-! ## Leaving out what came before -/

/-- The first candidate of its value: nothing in front of it has the same. Stated by a cut of the
list, so that what stands before and behind the candidate can be spoken of. -/
def IsFirstOfValue (candidates : List Suggestion) (kept : Suggestion) : Prop :=
  ∃ before after, candidates = before ++ kept :: after ∧
    ∀ other ∈ before, other.insertValue ≠ kept.insertValue

theorem not_isFirstOfValue_nil : ¬ IsFirstOfValue [] kept := by
  rintro ⟨before, after, hnil, -⟩
  simp at hnil

theorem isFirstOfValue_cons_iff {first : Suggestion} {rest : List Suggestion} :
    IsFirstOfValue (first :: rest) kept ↔
      kept = first ∨ first.insertValue ≠ kept.insertValue ∧ IsFirstOfValue rest kept := by
  constructor
  · rintro ⟨before, after, hcut, hbefore⟩
    cases before with
    | nil =>
      rw [List.nil_append, List.cons.injEq] at hcut
      exact .inl hcut.1.symm
    | cons head before =>
      rw [List.cons_append, List.cons.injEq] at hcut
      rw [List.forall_mem_cons] at hbefore
      rw [hcut.1]
      exact .inr ⟨hbefore.1, before, after, hcut.2, hbefore.2⟩
  · rintro (rfl | ⟨hne, before, after, rfl, hbefore⟩)
    · exact ⟨[], rest, rfl, by simp⟩
    · exact ⟨first :: before, after, rfl, List.forall_mem_cons.mpr ⟨hne, hbefore⟩⟩

/-- The first candidate of each value is kept, unless the value was seen. The induction is on the
candidates with the seen values general: a candidate that is kept is seen by all behind it. -/
theorem mem_keepFirst_iff :
    kept ∈ keepFirst seen candidates ↔
      kept.insertValue ∉ seen ∧ IsFirstOfValue candidates kept := by
  induction candidates generalizing seen with
  | nil => simp [keepFirst, not_isFirstOfValue_nil]
  | cons first rest ih =>
    rw [isFirstOfValue_cons_iff]
    unfold keepFirst
    by_cases hseen : first.insertValue ∈ seen
    · have hskip : seen.contains first.insertValue = true := List.contains_iff_mem.mpr hseen
      rw [if_pos hskip, ih]
      constructor
      · rintro ⟨hunseen, hfirst⟩
        -- What is kept is not the first candidate, whose value was seen.
        have hne : first.insertValue ≠ kept.insertValue := fun h => hunseen (h ▸ hseen)
        exact ⟨hunseen, .inr ⟨hne, hfirst⟩⟩
      · rintro ⟨hunseen, rfl | ⟨-, hfirst⟩⟩
        · exact absurd hseen hunseen
        · exact ⟨hunseen, hfirst⟩
    · have hkeep : ¬ seen.contains first.insertValue = true := by
        rwa [List.contains_iff_mem]
      rw [if_neg hkeep, List.mem_cons, ih, List.mem_cons, not_or]
      constructor
      · rintro (rfl | ⟨⟨hne, hunseen⟩, hfirst⟩)
        · exact ⟨hseen, .inl rfl⟩
        · exact ⟨hunseen, .inr ⟨fun h => hne h.symm, hfirst⟩⟩
      · -- The first candidate counts as seen for all that come after it.
        rintro ⟨hunseen, rfl | ⟨hne, hfirst⟩⟩
        · exact .inl rfl
        · exact .inr ⟨⟨fun h => hne h.symm, hunseen⟩, hfirst⟩

/-- No value is kept twice. -/
theorem nodup_keepFirst : ((keepFirst seen candidates).map insertValue).Nodup := by
  induction candidates generalizing seen with
  | nil => exact List.nodup_nil
  | cons first rest ih =>
    unfold keepFirst
    split
    · exact ih
    · rw [List.map_cons, List.nodup_cons]
      refine ⟨?_, ih⟩
      intro hmem
      obtain ⟨kept, hkept, hvalue⟩ := List.mem_map.mp hmem
      have hunseen := (mem_keepFirst_iff.mp hkept).1
      rw [hvalue] at hunseen
      exact hunseen List.mem_cons_self

/-- Every value is kept once. -/
theorem exists_isFirstOfValue (h : candidate ∈ candidates) :
    ∃ kept, IsFirstOfValue candidates kept ∧ kept.insertValue = candidate.insertValue := by
  induction candidates with
  | nil => cases h
  | cons first rest ih =>
    by_cases hfirst : first.insertValue = candidate.insertValue
    · exact ⟨first, isFirstOfValue_cons_iff.mpr (.inl rfl), hfirst⟩
    · have hrest : candidate ∈ rest := by
        rcases List.mem_cons.mp h with rfl | hrest
        · exact absurd rfl hfirst
        · exact hrest
      obtain ⟨kept, hkept, hvalue⟩ := ih hrest
      refine ⟨kept, isFirstOfValue_cons_iff.mpr (.inr ⟨?_, hkept⟩), hvalue⟩
      rwa [hvalue]

/-! ## Ranking -/

/-- `offered` is what `all` offers, in rank order and each value once. The one
that stands for a value is better than all that came before it and no worse than
those that came after. -/
structure IsRanked (typed : String) (all offered : List Suggestion) : Prop where
  ordered : offered.Pairwise fun a b => ¬ Precedes typed b a
  nodup : (offered.map insertValue).Nodup
  exists_kept : ∀ candidate ∈ all, ∃ kept ∈ offered, kept.insertValue = candidate.insertValue
  best : ∀ kept ∈ offered, ∃ before after, all = before ++ kept :: after ∧
    (∀ other ∈ before, other.insertValue = kept.insertValue → Precedes typed kept other) ∧
    ∀ other ∈ after, other.insertValue = kept.insertValue → ¬ Precedes typed other kept

/-- Of the candidates of a value none precedes the first one after sorting: it would stand before
it, and nothing of that value does. -/
theorem not_precedes_of_isFirstOfValue (hfirst : IsFirstOfValue (sorted typed all) kept)
    (hmem : candidate ∈ all) (hvalue : candidate.insertValue = kept.insertValue) :
    ¬ Precedes typed candidate kept := by
  obtain ⟨before, after, hcut, hbefore⟩ := hfirst
  have hsorted : candidate ∈ before ++ kept :: after := hcut ▸ mem_sorted.mpr hmem
  have hordered : (before ++ kept :: after).Pairwise fun a b => ¬ Precedes typed b a :=
    hcut ▸ pairwise_sorted
  rcases List.mem_append.mp hsorted with hfront | hrest
  · exact absurd hvalue (hbefore candidate hfront)
  · rcases List.mem_cons.mp hrest with rfl | hback
    · exact not_precedes_self
    · have hkept := (List.pairwise_append.mp hordered).2.1
      exact (List.pairwise_cons.mp hkept).1 candidate hback

/-- What begins with an element that is not in front is found behind. -/
theorem cons_sublist_of_not_mem {front back : List Suggestion} (hfront : candidate ∉ front)
    (h : List.Sublist (candidate :: candidates) (front ++ back)) :
    List.Sublist (candidate :: candidates) back := by
  induction front with
  | nil => exact h
  | cons first front ih =>
    rw [List.mem_cons, not_or] at hfront
    rw [List.cons_append] at h
    cases h with
    | cons _ hrest => exact ih hfront.2 hrest
    | cons_cons _ _ => exact absurd rfl hfront.1

/-- A candidate that came before the one that is kept of its value is worse: if they were tied, it
would still stand before every copy of the other. Copies have to be counted, since candidates may be
equal and the one that is kept is known by its value only. -/
theorem precedes_of_isFirstOfValue (hfirst : IsFirstOfValue (sorted typed all) kept)
    (hall : all = before ++ kept :: after) (hkept : kept ∉ before) (hmem : candidate ∈ before)
    (hvalue : candidate.insertValue = kept.insertValue) : Precedes typed kept candidate := by
  by_contra htied
  obtain ⟨front, back, hcut, hfront⟩ := hfirst
  let copies := List.replicate (all.count kept) kept
  have hsublist : List.Sublist (candidate :: copies) all := by
    have hcount : all.count kept = (kept :: after).count kept := by
      rw [hall, List.count_append, List.count_eq_zero_of_not_mem hkept, Nat.zero_add]
    have hcopies : List.Sublist copies (kept :: after) :=
      List.replicate_sublist_iff.mpr (Nat.le_of_eq hcount)
    have hcandidate : List.Sublist [candidate] before := List.singleton_sublist.mpr hmem
    rw [hall]
    exact hcandidate.append hcopies
  have hordered : (candidate :: copies).Pairwise fun a b => ¬ Precedes typed b a := by
    rw [List.pairwise_cons]
    constructor
    · intro copy hcopy
      rwa [List.eq_of_mem_replicate hcopy]
    · exact List.pairwise_replicate.mpr (.inr not_precedes_self)
  -- Sorted, they all stand behind the first of the value, which is one copy more.
  have hbehind : List.Sublist copies back := by
    have hsorted : List.Sublist (candidate :: copies) (front ++ kept :: back) :=
      hcut ▸ sublist_sorted hsublist hordered
    have hnot : candidate ∉ front := fun h => hfront candidate h hvalue
    have hne : candidate ≠ kept := fun h => hkept (h ▸ hmem)
    have hrest := cons_sublist_of_not_mem hnot hsorted
    rw [← List.singleton_append] at hrest
    have hnotFirst : candidate ∉ [kept] := by simpa using hne
    exact (List.sublist_cons_self _ _).trans (cons_sublist_of_not_mem hnotFirst hrest)
  -- All copies behind the first one, and the first one itself, would be one copy too many.
  have hfew : all.count kept ≤ back.count kept := List.replicate_sublist_iff.mp hbehind
  have hmany : all.count kept = front.count kept + (back.count kept + 1) := by
    rw [← @count_sorted typed, hcut, List.count_append, List.count_cons_self]
  omega

/-- Ranking is sorting, then the first of each value. The first two fields are read off the two
steps; the last one is where they meet, and where it matters that sorting is stable. -/
theorem isRanked_rank : IsRanked typed all (rank typed all) where
  ordered := by
    rw [rank_eq_keepFirst]
    exact pairwise_sorted.sublist (keepFirst_sublist _ _)
  nodup := by
    rw [rank_eq_keepFirst]
    exact nodup_keepFirst
  exists_kept := by
    intro candidate hmem
    obtain ⟨kept, hfirst, hvalue⟩ := exists_isFirstOfValue (mem_sorted.mpr hmem)
    refine ⟨kept, ?_, hvalue⟩
    rw [rank_eq_keepFirst, mem_keepFirst_iff]
    exact ⟨List.not_mem_nil, hfirst⟩
  best := by
    intro kept hmem
    have hfirst : IsFirstOfValue (sorted typed all) kept := (mem_keepFirst_iff.mp hmem).2
    obtain ⟨before, after, hall, hkept⟩ := List.eq_append_cons_of_mem (mem_of_mem_rank hmem)
    refine ⟨before, after, hall, ?_, ?_⟩
    · intro other hother hvalue
      exact precedes_of_isFirstOfValue hfirst hall hkept hother hvalue
    · intro other hother hvalue
      have hother' : other ∈ all := by
        rw [hall]
        exact List.mem_append_right before (List.mem_cons_of_mem kept hother)
      exact not_precedes_of_isFirstOfValue hfirst hother' hvalue

/-- Where candidates are shown as they are inserted, none are tied: of two that are, the values
would be equal, and a value is kept once. -/
theorem IsRanked.pairwise_precedes (hranked : IsRanked typed all offered)
    (hnames : ∀ candidate ∈ offered, candidate.insertValue = candidate.name) :
    offered.Pairwise (Precedes typed) := by
  have hdistinct : offered.Pairwise fun a b => a.insertValue ≠ b.insertValue :=
    List.pairwise_map.mp hranked.nodup
  have hboth := hranked.ordered.and hdistinct
  refine hboth.imp_of_mem ?_
  intro a b ha hb hab
  have hne : a.name ≠ b.name := by
    rw [← hnames a ha, ← hnames b hb]
    exact hab.2
  exact precedes_of_name_ne hne hab.1

end CommandCompletion.Suggestion
