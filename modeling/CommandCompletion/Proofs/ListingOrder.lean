/-
The order in which a directory lists its entries has no influence on what is
offered.

Sorting keeps the order of tied candidates and of nothing else: two lists of
candidates come out alike if and only if, for each candidate, those tied with it
stand in the same order in both (`Suggestion.sorted_eq_sorted_iff`). The entries
of a directory all have one kind, one priority and no description, so two of
them that are tied are one and the same candidate. Exchanging them leaves every
row of ties as it is, whatever choices, commands, children or options share
their names and priority, so the ranking comes out the same
(`Recommendation.byGrammar_listingOrder`).
-/
import CommandCompletion.Proofs.Eligibility

set_option autoImplicit false

namespace CommandCompletion

namespace Suggestion

variable {typed : String} {a b candidate : Suggestion} {all others before after : List Suggestion}

/-! ## Ties -/

/-- The candidates that are tied with one, in the order in which they came. A list of candidates is
looked at as its rows of ties, since these are what a stable sorting leaves as they are. -/
def ties (typed : String) (candidate : Suggestion) (all : List Suggestion) : List Suggestion :=
  all.filter fun other => rankOrder typed candidate other == .eq

theorem mem_ties_iff : b ∈ ties typed a all ↔ b ∈ all ∧ rankOrder typed a b = .eq := by
  rw [ties, List.mem_filter, beq_iff_eq]

theorem ties_cons_of_tied (h : rankOrder typed a b = .eq) :
    ties typed a (b :: all) = b :: ties typed a all := by
  exact List.filter_cons_of_pos (beq_iff_eq.mpr h)

theorem ties_cons_of_not_tied (h : rankOrder typed a b ≠ .eq) :
    ties typed a (b :: all) = ties typed a all := by
  have hdrop : ¬ (rankOrder typed a b == .eq) = true := by rwa [beq_iff_eq]
  exact List.filter_cons_of_neg hdrop

/-- Tied are those of which neither precedes the other. -/
theorem rankOrder_eq_eq_iff :
    rankOrder typed a b = .eq ↔ ¬ Precedes typed a b ∧ ¬ Precedes typed b a := by
  have hswap : rankOrder typed a b = (rankOrder typed b a).swap := Std.OrientedCmp.eq_swap
  rw [← rankOrder_eq_lt_iff, ← rankOrder_eq_lt_iff, hswap]
  cases rankOrder typed b a <;> simp [Ordering.swap]

theorem name_eq_of_tied (h : rankOrder typed a b = .eq) : a.name = b.name := by
  obtain ⟨hab, hba⟩ := rankOrder_eq_eq_iff.mp h
  by_contra hne
  exact hab (precedes_of_name_ne hne hba)

/-- Sorting keeps the order of the candidates that are tied with one. The row is in order, so it
stays a sublist, and it cannot have become longer. -/
theorem ties_sorted : ties typed candidate (sorted typed all) = ties typed candidate all := by
  have hordered : (ties typed candidate all).Pairwise fun a b => ¬ Precedes typed b a := by
    rw [List.pairwise_iff_forall_sublist]
    intro a b hab
    have ha := (mem_ties_iff.mp (hab.subset List.mem_cons_self)).2
    have hb := (mem_ties_iff.mp (hab.subset (List.mem_cons_of_mem a List.mem_cons_self))).2
    have htied : rankOrder typed b a = .eq := Std.TransCmp.eq_trans (Std.OrientedCmp.eq_symm hb) ha
    exact (rankOrder_eq_eq_iff.mp htied).1
  -- They are in order already, so they stay as they are; there are as many of them as before.
  have hkept : List.Sublist (ties typed candidate all) (sorted typed all) :=
    sublist_sorted List.filter_sublist hordered
  have hsublist : List.Sublist (ties typed candidate all)
      (ties typed candidate (sorted typed all)) := by
    have h := hkept.filter fun other => rankOrder typed candidate other == .eq
    simpa only [ties, List.filter_filter, Bool.and_self] using h
  have hperm : (ties typed candidate (sorted typed all)).Perm (ties typed candidate all) :=
    (List.mergeSort_perm all _).filter _
  exact (hsublist.eq_of_length hperm.length_eq.symm).symm

/-- Every candidate stands in its own row of ties. -/
theorem mem_of_ties_eq (hties : ties typed a all = ties typed a others) (hmem : a ∈ all) :
    a ∈ others := by
  have hrow : a ∈ ties typed a others := hties ▸ mem_ties_iff.mpr ⟨hmem, rankOrder_self⟩
  exact (mem_ties_iff.mp hrow).1

/-- In rank order, nothing precedes the first. -/
theorem not_precedes_first (hordered : (b :: all).Pairwise fun a b => ¬ Precedes typed b a)
    (hmem : a ∈ b :: all) : ¬ Precedes typed a b := by
  rcases List.mem_cons.mp hmem with rfl | hrest
  · exact not_precedes_self
  · exact (List.pairwise_cons.mp hordered).1 a hrest

/-- In rank order, the rows of ties determine the whole list. Induction on both lists at once: their
first elements begin the same row, and taking them away shortens that row alone. -/
theorem eq_of_ties_eq (hall : all.Pairwise fun a b => ¬ Precedes typed b a)
    (hothers : others.Pairwise fun a b => ¬ Precedes typed b a)
    (hties : ∀ candidate, ties typed candidate all = ties typed candidate others) :
    all = others := by
  induction all generalizing others with
  | nil =>
    cases others with
    | nil => rfl
    | cons b others => exact absurd (mem_of_ties_eq (hties b).symm List.mem_cons_self) (by simp)
  | cons a all ih =>
    cases others with
    | nil => exact absurd (mem_of_ties_eq (hties a) List.mem_cons_self) (by simp)
    | cons b others =>
      have ha : a ∈ b :: others := mem_of_ties_eq (hties a) List.mem_cons_self
      have hb : b ∈ a :: all := mem_of_ties_eq (hties b).symm List.mem_cons_self
      -- The first of both are tied, so they begin one and the same row.
      have htied : rankOrder typed a b = .eq :=
        rankOrder_eq_eq_iff.mpr ⟨not_precedes_first hothers ha, not_precedes_first hall hb⟩
      have hrow := hties a
      rw [ties_cons_of_tied rankOrder_self, ties_cons_of_tied htied, List.cons.injEq] at hrow
      obtain ⟨rfl, -⟩ := hrow
      rw [ih (List.pairwise_cons.mp hall).2 (List.pairwise_cons.mp hothers).2]
      intro candidate
      have hrest := hties candidate
      -- The row of the first element has lost it, every other row is as before.
      by_cases hsame : rankOrder typed candidate a = .eq
      · rw [ties_cons_of_tied hsame, ties_cons_of_tied hsame, List.cons.injEq] at hrest
        exact hrest.2
      · rwa [ties_cons_of_not_tied hsame, ties_cons_of_not_tied hsame] at hrest

/-- What sorting makes of a list depends on the order of ties and on nothing else of its order. One
direction is stability, the other that sorted lists are known by their rows. -/
theorem sorted_eq_sorted_iff :
    sorted typed all = sorted typed others ↔
      ∀ candidate, ties typed candidate all = ties typed candidate others := by
  constructor
  · intro h candidate
    rw [← ties_sorted, h, ties_sorted]
  · intro h
    apply eq_of_ties_eq pairwise_sorted pairwise_sorted
    intro candidate
    rw [ties_sorted, ties_sorted, h]

/-! ## Candidates that may be exchanged -/

/-- Candidates that are the same wherever they are tied. Entries of a directory are: ties have the
same name, and nothing else tells such candidates apart. -/
def Exchangeable (typed : String) (all : List Suggestion) : Prop :=
  ∀ a ∈ all, ∀ b ∈ all, rankOrder typed a b = .eq → a = b

/-- Exchanging them leaves every row of ties as it is. -/
theorem ties_eq_of_perm (hexchange : Exchangeable typed all) (hperm : all.Perm others) :
    ties typed candidate all = ties typed candidate others := by
  have hsame : (ties typed candidate all).Perm (ties typed candidate others) := hperm.filter _
  -- All that are tied with one candidate are copies of one, so any order of them is the same.
  have htrivial : ∀ row : List Suggestion, row.Pairwise fun _ _ => True :=
    fun _ => List.pairwise_of_forall fun _ _ => trivial
  refine hsame.eq_of_pairwise ?_ (htrivial _) (htrivial _)
  intro a b ha hb _ _
  rw [← hsame.mem_iff] at hb
  rw [mem_ties_iff] at ha hb
  have htied : rankOrder typed a b = .eq :=
    Std.TransCmp.eq_trans (Std.OrientedCmp.eq_symm ha.2) hb.2
  exact hexchange a ha.1 b hb.1 htied

/-- Wherever they stand among other candidates, their order is not seen. The others may be tied with
them and need not be exchangeable; they keep their places in every row. -/
theorem rank_perm_middle (hexchange : Exchangeable typed all) (hperm : all.Perm others) :
    rank typed (before ++ all ++ after) = rank typed (before ++ others ++ after) := by
  have hsorted : sorted typed (before ++ all ++ after) =
      sorted typed (before ++ others ++ after) := by
    rw [sorted_eq_sorted_iff]
    intro candidate
    have hmiddle : ties typed candidate all = ties typed candidate others :=
      ties_eq_of_perm hexchange hperm
    unfold ties at hmiddle ⊢
    rw [List.filter_append, List.filter_append, List.filter_append, List.filter_append, hmiddle]
  rw [rank_eq_keepFirst, rank_eq_keepFirst, hsorted]

end Suggestion

namespace Recommendation

variable {ι : Type} {commands : List String} {context : Context ι} {typed : String}
variable {shell : Shell} {foldersOnly : Bool} {slot : Slot} {a b : Suggestion}
variable {entries reordered : List (String × Bool)}

/-! ## Entries of a directory -/

/-- Nothing but the name tells candidates from a directory apart. -/
theorem eq_of_mem_listed (hmem : a ∈ entries.filterMap (ofListed? shell typed foldersOnly)) :
    a = { name := a.name, kind := .path } := by
  obtain ⟨⟨name, isFolder⟩, -, hlisted⟩ := List.mem_filterMap.mp hmem
  obtain ⟨-, -, -, rfl⟩ := ofListed?_eq_some_iff.mp hlisted
  rfl

theorem exchangeable_listed :
    Suggestion.Exchangeable typed (entries.filterMap (ofListed? shell typed foldersOnly)) := by
  intro a ha b hb htied
  rw [eq_of_mem_listed ha, eq_of_mem_listed hb, Suggestion.name_eq_of_tied htied]

/-- The values of a slot are some that do not come from the directory, and then
entries whose order is not seen. -/
theorem exists_slotValues_eq (hperm : entries.Perm reordered) :
    ∃ fixed paths paths', slotValues commands entries context typed slot = fixed ++ paths ∧
      slotValues commands reordered context typed slot = fixed ++ paths' ∧
      paths.Perm paths' ∧ Suggestion.Exchangeable typed paths := by
  unfold slotValues
  -- Without a template for paths the directory is not looked at.
  cases slot.templates.isEmpty with
  | true => exact ⟨_, [], [], rfl, rfl, .rfl, by simp [Suggestion.Exchangeable]⟩
  | false => exact ⟨_, _, _, rfl, rfl, hperm.filterMap _, exchangeable_listed⟩

/-- Ranked among candidates of other sources, the values of a slot do not tell in
which order the directory was listed. -/
theorem rank_slotValues (hperm : entries.Perm reordered) (before after : List Suggestion) :
    Suggestion.rank typed (before ++ slotValues commands entries context typed slot ++ after) =
      Suggestion.rank typed
        (before ++ slotValues commands reordered context typed slot ++ after) := by
  have hsplit := @exists_slotValues_eq _ commands context typed slot _ _ hperm
  obtain ⟨fixed, paths, paths', hvalues, hvalues', hpaths, hexchange⟩ := hsplit
  rw [hvalues, hvalues', ← List.append_assoc, ← List.append_assoc]
  exact Suggestion.rank_perm_middle hexchange hpaths

/-- **The listing order is not seen.** Whatever order a directory lists its entries in, the same
suggestions are offered in the same order (specification, § E2.5, ordering and de-dupe). File
systems list entries as they please, so this is what makes suggestions reproducible. In each kind of
place the values of one slot stand between other candidates, which is what `rank_slotValues` is
about. -/
theorem byGrammar_listingOrder (commands : List String) (context : Context ι)
    (hperm : entries.Perm reordered) :
    byGrammar commands context entries = byGrammar commands context reordered := by
  have hvalues : ∀ slot before after,
      Suggestion.rank context.typed
          (before ++ slotValues commands entries context context.typed slot ++ after) =
        Suggestion.rank context.typed
          (before ++ slotValues commands reordered context context.typed slot ++ after) :=
    fun _ => rank_slotValues hperm
  unfold byGrammar candidates?
  cases context.expected with
  | anything argsExhausted argsUsed =>
    by_cases hdone : (argsExhausted && argsUsed) = true
    · simp only [if_pos hdone]
    · simp only [if_neg hdone, Option.map_some, Option.some_inj]
      -- A slot is open for values only while the arguments are not used up.
      cases argsExhausted with
      | true => rfl
      | false =>
        cases context.node.args with
        | nil => rfl
        | cons slot later =>
          have hlast := hvalues slot
            (if argsUsed then [] else childrenAndOptions context context.typed) []
          rwa [List.append_nil, List.append_nil] at hlast
  | value slot remainingOptional =>
    simp only [Option.map_some, Option.some_inj]
    exact hvalues slot []
      (if remainingOptional then childrenAndOptions context context.typed else [])

/-- A place where a choice of the slot, a child, the file `a\` and the directory
`a` are all offered under one name with one priority. -/
def collidingContext : Context Unit where
  expected := .value {
    templates := [.filepaths]
    choices := [{ name := "a\\", description := some "drive" }, { name := "b" }] } true
  node := { id := (), names := ["copy"], children := [{ id := (), names := ["a\\"] }] }
  directory := "/home"
  shell := .cmd

theorem byGrammar_listingOrder_colliding :
    let entries := [("b", false), ("a\\", false), ("a", true)]
    let reordered := [("a", true), ("b", false), ("a\\", false)]
    entries.Perm reordered ∧
    byGrammar [] collidingContext entries = byGrammar [] collidingContext reordered ∧
    candidates? [] collidingContext entries =
      some [
        { name := "a\\", description := some "drive", kind := .argument },
        { name := "b", kind := .argument },
        { name := "b", kind := .path },
        { name := "a\\", kind := .path },
        { name := "a\\", kind := .path },
        { name := "a\\", kind := .subcommand }] := by
  have hperm : List.Perm [("b", false), ("a\\", false), ("a", true)]
      [("a", true), ("b", false), ("a\\", false)] := by decide
  exact ⟨hperm, byGrammar_listingOrder [] collidingContext hperm, by decide +kernel⟩

end Recommendation

end CommandCompletion
