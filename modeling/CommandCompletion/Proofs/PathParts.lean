/-
Paths that are put together from names, and the parts they fall into.

A name of a file has no slash in it, so cutting a path at its slashes undoes
joining: the parts of `join base name` are those of `base` and then `name`. The
one thing to look out for is a base that ends in a slash. Its last part is an
empty text, and the name takes the place of that (`partsFromRoot_joinAll`).
-/
import CommandCompletion.Files

set_option autoImplicit false

namespace CommandCompletion

/-! ## Cutting -/

namespace Text

variable {p : Char → Bool} {c : Char}

/-- Where nothing separates, there is a single piece. -/
theorem cutFrom_of_forall (piece : List Char) {cs : List Char} (h : ∀ c ∈ cs, p c = false) :
    cutFrom p piece cs = [piece.reverse ++ cs] := by
  induction cs generalizing piece with
  | nil => simp [cutFrom]
  | cons c cs ih =>
    have hc : p c = false := h c List.mem_cons_self
    rw [cutFrom, if_neg (by rw [hc]; exact Bool.false_ne_true),
      ih _ fun c hmem => h c (List.mem_cons_of_mem _ hmem), List.reverse_cons,
      List.append_assoc, List.singleton_append]

/-- What comes after a separator is cut on its own. With `cutFrom_of_forall` this determines every
cut: a piece ends at the separator, and the rest knows nothing of it. -/
theorem cutFrom_append_cons (piece cs rest : List Char) (hc : p c = true) :
    cutFrom p piece (cs ++ c :: rest) = cutFrom p piece cs ++ cutFrom p [] rest := by
  induction cs generalizing piece with
  | nil =>
    rw [List.nil_append, cutFrom.eq_2, if_pos hc, cutFrom, List.singleton_append]
  | cons d cs ih =>
    rw [List.cons_append, cutFrom, cutFrom]
    by_cases hd : p d = true
    · rw [if_pos hd, if_pos hd, ih, List.cons_append]
    · rw [if_neg hd, if_neg hd, ih]

end Text

namespace Path

variable {base name : String} {names : List String}

/-! ## Names -/

/-- A name that an entry of a directory can have: not empty, not one of the two that lead elsewhere,
and without the characters that no file system takes in a name. -/
structure IsName (name : String) : Prop where
  ne_empty : name ≠ ""
  ne_dot : name ≠ "."
  ne_dots : name ≠ ".."
  noSlash : '/' ∉ name.toList
  noNul : '\x00' ∉ name.toList

instance (name : String) : Decidable (IsName name) :=
  decidable_of_iff
    (name ≠ "" ∧ name ≠ "." ∧ name ≠ ".." ∧ '/' ∉ name.toList ∧ '\x00' ∉ name.toList)
    ⟨fun ⟨h₁, h₂, h₃, h₄, h₅⟩ => ⟨h₁, h₂, h₃, h₄, h₅⟩,
      fun ⟨h₁, h₂, h₃, h₄, h₅⟩ => ⟨h₁, h₂, h₃, h₄, h₅⟩⟩

theorem ne_of_noSlash {c : Char} (h : '/' ∉ name.toList) (hc : c ∈ name.toList) :
    (c == '/') = false := by
  rw [beq_eq_false_iff_ne]
  rintro rfl
  exact h hc

theorem isAbsolute_of_noSlash (h : '/' ∉ name.toList) : isAbsolute name = false := by
  unfold isAbsolute
  cases hcs : name.toList with
  | nil => rfl
  | cons c cs =>
    have hc := ne_of_noSlash h (hcs ▸ List.mem_cons_self)
    simpa using hc

/-! ## Parts -/

theorem parts_of_noSlash (h : '/' ∉ name.toList) : parts name = [name] := by
  unfold parts Text.cut
  rw [Text.cutFrom_of_forall [] fun c hc => ne_of_noSlash h hc]
  simp

/-- A slash separates parts. -/
theorem parts_append_slash (front back : String) :
    parts (front ++ "/" ++ back) = parts front ++ parts back := by
  have hlist : (front ++ "/" ++ back).toList = front.toList ++ '/' :: back.toList := by
    simp [String.toList_append]
  have hcut : Text.cutFrom (· == '/') [] (front.toList ++ '/' :: back.toList) =
      Text.cutFrom (· == '/') [] front.toList ++ Text.cutFrom (· == '/') [] back.toList :=
    Text.cutFrom_append_cons _ _ _ rfl
  unfold parts Text.cut
  rw [hlist, hcut, List.map_append]

theorem parts_intercalate (hne : names ≠ []) (h : ∀ name ∈ names, '/' ∉ name.toList) :
    parts (String.intercalate "/" names) = names := by
  induction names with
  | nil => exact absurd rfl hne
  | cons name names ih =>
    cases names with
    | nil =>
      rw [String.intercalate_singleton]
      exact parts_of_noSlash (h name List.mem_cons_self)
    | cons next names =>
      rw [String.intercalate_cons_cons, parts_append_slash,
        parts_of_noSlash (h name List.mem_cons_self),
        ih (List.cons_ne_nil _ _) fun name hmem => h name (List.mem_cons_of_mem _ hmem),
        List.singleton_append]

/-! ## Joining -/

/-- What stands between a path and a name below it. -/
def slashAfter (base : String) : String := if base.toList.getLast? == some '/' then "" else "/"

theorem join_of_noSlash (hbase : base ≠ "") (h : '/' ∉ name.toList) :
    join base name = base ++ slashAfter base ++ name := by
  have hempty : base.isEmpty = false := by
    rw [Bool.eq_false_iff]
    exact fun hcontra => hbase (String.isEmpty_iff.mp hcontra)
  unfold join slashAfter
  rw [isAbsolute_of_noSlash h, hempty, Bool.or_false, if_neg Bool.false_ne_true]
  by_cases hslash : (base.toList.getLast? == some '/') = true
  · rw [if_pos hslash, if_pos hslash, String.append_empty]
  · rw [if_neg hslash, if_neg hslash]

/-- After a name, a slash is needed. -/
theorem slashAfter_of_isName (front : String) (h : IsName name) : slashAfter (front ++ name) = "/" := by
  have hne : name.toList ≠ [] := fun hcontra => h.ne_empty (String.toList_eq_nil_iff.mp hcontra)
  have hlast : (front ++ name).toList.getLast? = some (name.toList.getLast hne) := by
    rw [String.toList_append, List.getLast?_append, List.getLast?_eq_some_getLast hne]
    rfl
  -- The last character belongs to the name, and no slash does.
  have hslash : name.toList.getLast hne ≠ '/' := by
    intro hcontra
    exact h.noSlash (hcontra ▸ List.getLast_mem hne)
  unfold slashAfter
  rw [hlast, if_neg]
  simpa using hslash

/-- Joining names one after the other puts a slash before each. The induction is on the names with
the path general: after the first one the path ends in a name, and needs a slash for sure. -/
theorem joinAll_eq (hbase : base ≠ "") (hne : names ≠ []) (h : ∀ name ∈ names, IsName name) :
    joinAll base names = base ++ slashAfter base ++ String.intercalate "/" names := by
  induction names generalizing base with
  | nil => exact absurd rfl hne
  | cons name names ih =>
    have hname : IsName name := h name List.mem_cons_self
    have hjoin := join_of_noSlash hbase hname.noSlash
    cases names with
    | nil => rw [String.intercalate_singleton, ← hjoin]; rfl
    | cons next names =>
      -- A path that begins with something is not empty after a name either.
      have hbase' : base ++ slashAfter base ++ name ≠ "" := by
        intro hcontra
        exact hname.ne_empty (String.append_eq_empty_iff.mp hcontra).2
      rw [String.intercalate_cons_cons, joinAll, List.foldl_cons, hjoin, ← joinAll,
        ih hbase' (List.cons_ne_nil _ _) fun name hmem => h name (List.mem_cons_of_mem _ hmem),
        slashAfter_of_isName _ hname]
      simp only [String.append_assoc]

/-- A path seen from another one still ends the same way. -/
theorem exists_join_eq (base path : String) : ∃ front, join base path = front ++ path := by
  unfold join
  split
  · exact ⟨"", by rw [String.empty_append]⟩
  · split
    · exact ⟨base, rfl⟩
    · exact ⟨base ++ "/", rfl⟩

theorem joinAll_ne_empty (hbase : base ≠ "") (h : ∀ name ∈ names, IsName name) :
    joinAll base names ≠ "" := by
  cases names with
  | nil => exact hbase
  | cons name names =>
    rw [joinAll_eq hbase (List.cons_ne_nil _ _) h, String.append_assoc]
    intro hcontra
    exact hbase (String.append_eq_empty_iff.mp hcontra).1

/-- Joining makes up no characters but slashes. -/
theorem mem_join {c : Char} {path : String} (h : c ∈ (join base path).toList) :
    c ∈ base.toList ∨ c = '/' ∨ c ∈ path.toList := by
  unfold join at h
  split at h
  · exact .inr (.inr h)
  · split at h
    · rw [String.toList_append, List.mem_append] at h
      exact h.imp_right .inr
    · rw [String.toList_append, String.toList_append, List.mem_append, List.mem_append] at h
      rcases h with (h | h) | h
      · exact .inl h
      · exact .inr (.inl (List.mem_singleton.mp h))
      · exact .inr (.inr h)

theorem mem_joinAll {c : Char} (h : c ∈ (joinAll base names).toList) :
    c ∈ base.toList ∨ c = '/' ∨ ∃ name ∈ names, c ∈ name.toList := by
  induction names generalizing base with
  | nil => exact .inl h
  | cons name names ih =>
    have hrest : c ∈ (joinAll (join base name) names).toList := h
    rcases ih hrest with h | h | ⟨other, hmem, h⟩
    · rcases mem_join h with h | h | h
      · exact .inl h
      · exact .inr (.inl h)
      · exact .inr (.inr ⟨name, List.mem_cons_self, h⟩)
    · exact .inr (.inl h)
    · exact .inr (.inr ⟨other, List.mem_cons_of_mem _ hmem, h⟩)

/-- Two names joined to the same path make the same path only if they are the same. What stands
before them is the same text, so it can be cancelled. -/
theorem joinAll_concat_inj {last last' : String} (hbase : base ≠ "")
    (hnames : ∀ name ∈ names, IsName name) (h : '/' ∉ last.toList) (h' : '/' ∉ last'.toList)
    (heq : joinAll base (names ++ [last]) = joinAll base (names ++ [last'])) : last = last' := by
  have hne := joinAll_ne_empty hbase hnames
  have hjoin : ∀ name, joinAll base (names ++ [name]) = join (joinAll base names) name :=
    fun name => List.foldl_append
  rw [hjoin, hjoin, join_of_noSlash hne h, join_of_noSlash hne h'] at heq
  exact (String.append_right_inj _).mp heq

/-- More text at the end of a path stays at the end. -/
theorem join_append {path : String} (hpath : path ≠ "") (more : String) :
    join base (path ++ more) = join base path ++ more := by
  have hhead : (path ++ more).toList.head? = path.toList.head? := by
    cases hcs : path.toList with
    | nil => exact absurd (String.toList_eq_nil_iff.mp hcs) hpath
    | cons c cs => rw [String.toList_append, hcs]; rfl
  unfold join isAbsolute
  rw [hhead]
  split
  · rfl
  · split <;> simp only [String.append_assoc]

end Path

/-! ## Parts from the root -/

namespace Files

open CommandCompletion.Path

/-- Names that are joined to a path come after its parts. Where the path ends in a slash, they take
the place of the empty text behind it. The front is the same for all names, which is what makes a
folder and what is below it comparable. -/
theorem partsFromRoot_joinAll (files : Files) {base : String} (hbase : base ≠ "") :
    ∃ front, (files.partsFromRoot base = front ∨ files.partsFromRoot base = front ++ [""]) ∧
      ∀ names, names ≠ [] → (∀ name ∈ names, IsName name) →
        files.partsFromRoot (joinAll base names) = front ++ names := by
  have hjoined : ∀ names, names ≠ [] → (∀ name ∈ names, IsName name) →
      files.partsFromRoot (joinAll base names) =
        parts (join files.workingDirectory base ++ slashAfter base ++
          String.intercalate "/" names) := by
    intro names hne h
    rw [partsFromRoot, joinAll_eq hbase hne h, String.append_assoc, join_append hbase,
      String.append_assoc]
  have hcut : ∀ names, names ≠ [] → (∀ name ∈ names, IsName name) →
      parts (String.intercalate "/" names) = names :=
    fun names hne h => parts_intercalate hne fun name hmem => (h name hmem).noSlash
  by_cases hslash : (base.toList.getLast? == some '/') = true
  · have hafter : slashAfter base = "" := if_pos hslash
    -- The slash at the end is cut off, so that what is before it can be named.
    obtain ⟨before, hbefore⟩ : ∃ before, base = before ++ "/" := by
      obtain ⟨cs, hcs⟩ := List.getLast?_eq_some_iff.mp (beq_iff_eq.mp hslash)
      refine ⟨String.ofList cs, String.toList_injective ?_⟩
      rw [hcs, String.toList_append, String.toList_ofList]
      rfl
    obtain ⟨above, habove⟩ := exists_join_eq files.workingDirectory base
    have hpath : join files.workingDirectory base = above ++ before ++ "/" := by
      rw [habove, hbefore, String.append_assoc]
    refine ⟨parts (above ++ before), .inr ?_, ?_⟩
    · have hempty := parts_append_slash (above ++ before) ""
      rw [String.append_empty] at hempty
      rw [partsFromRoot, hpath, hempty]
      rfl
    · intro names hne h
      rw [hjoined names hne h, hafter, String.append_empty, hpath, parts_append_slash,
        hcut names hne h]
  · have hafter : slashAfter base = "/" := if_neg hslash
    refine ⟨_, .inl rfl, ?_⟩
    intro names hne h
    rw [hjoined names hne h, hafter, parts_append_slash, hcut names hne h]
    rfl

end Files

end CommandCompletion
