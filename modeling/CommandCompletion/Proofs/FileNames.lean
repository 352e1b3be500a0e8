/-
What becomes of a file name when its extension is taken off and put back.

The extension of a name follows its last dot, so a name that has one is
`stem ++ "." ++ extension` in just one way (`extension?_eq_some_iff`). Taking
`.json` off a name leaves the stem, but `..` of `..json` (`withoutExtension_json`).
Putting `.json` back on does not append it to the stem: it replaces the extension
that the stem has of its own. The two undo each other exactly for plain stems
(`withExtension_withoutExtension_iff`).
-/
import CommandCompletion.Path

set_option autoImplicit false

namespace CommandCompletion.Path

variable {name stem extension : String}

/-! ## The last dot -/

/-- A name has no dot, or a last one. The last dot is the first one from behind, so the name is gone
through backwards. -/
theorem noDot_or_dotted (name : String) : '.' ∉ name.toList ∨
    ∃ stem extension, name = stem ++ "." ++ extension ∧ '.' ∉ extension.toList := by
  by_cases h : '.' ∈ name.toList
  · right
    obtain ⟨after, before, hsplit, hafter⟩ :=
      List.eq_append_cons_of_mem (List.mem_reverse.mpr h)
    refine ⟨String.ofList before.reverse, String.ofList after.reverse, ?_, ?_⟩
    · have hname := congrArg List.reverse hsplit
      rw [List.reverse_reverse] at hname
      refine String.toList_injective ?_
      rw [hname]
      simp [String.toList_append]
    · simpa using hafter
  · exact .inl h

/-- Without a dot, a name can be gone through backwards to its beginning. -/
theorem forall_ne_dot (h : '.' ∉ name.toList) : ∀ c ∈ name.toList.reverse, (c != '.') = true := by
  intro c hc
  rw [bne_iff_ne]
  rintro rfl
  exact h (List.mem_reverse.mp hc)

/-- So nothing is split off it. -/
theorem splitExtension_of_noDot (h : '.' ∉ name.toList) : splitExtension name = (name, none) := by
  have hall := forall_ne_dot h
  have hafter : (name.toList.reverse.takeWhile (· != '.')).reverse = name.toList := by
    have htake : (name.toList.reverse ++ []).takeWhile (· != '.') = name.toList.reverse ++ [] :=
      List.takeWhile_append_of_pos hall
    rw [List.append_nil] at htake
    rw [htake, List.reverse_reverse]
  unfold splitExtension
  simp only [hafter, beq_self_eq_true, Bool.or_true, if_true]

/-- The last dot splits a name, unless it begins the name: what begins with its only dot is hidden
and has no extension. -/
theorem splitExtension_dotted (h : '.' ∉ extension.toList)
    (hdots : stem ++ "." ++ extension ≠ "..") : splitExtension (stem ++ "." ++ extension) =
      if stem = "" then (stem ++ "." ++ extension, none) else (stem, some extension) := by
  have hlist : (stem ++ "." ++ extension).toList = stem.toList ++ '.' :: extension.toList := by
    simp [String.toList_append]
  -- From behind, the search passes over the extension and stops at the dot.
  have hall := forall_ne_dot h
  have hafter : ((stem ++ "." ++ extension).toList.reverse.takeWhile (· != '.')).reverse =
      extension.toList := by
    rw [hlist, List.reverse_append, List.reverse_cons, List.append_assoc,
      List.takeWhile_append_of_pos hall]
    simp
  have hbefore : (stem.toList ++ '.' :: extension.toList).take
      ((stem.toList ++ '.' :: extension.toList).length - extension.toList.length - 1) =
        stem.toList := by
    have hlength : (stem.toList ++ '.' :: extension.toList).length - extension.toList.length - 1 =
        stem.toList.length := by
      rw [List.length_append, List.length_cons]
      omega
    rw [hlength, List.take_left]
  have hshorter : (extension.toList.length ==
      (stem.toList ++ '.' :: extension.toList).length) = false := by
    rw [beq_eq_false_iff_ne, List.length_append, List.length_cons]
    omega
  have hname : (stem ++ "." ++ extension == "..") = false := beq_eq_false_iff_ne.mpr hdots
  unfold splitExtension
  simp only [hafter, hname, Bool.false_or]
  rw [hlist, hbefore, hshorter]
  by_cases hstem : stem = ""
  · subst hstem
    rfl
  · have hne : stem.toList.isEmpty = false := by
      rw [List.isEmpty_eq_false_iff]
      exact fun hcontra => hstem (String.toList_eq_nil_iff.mp hcontra)
    rw [hne, if_neg hstem]
    simp

/-- **The extension of a name follows its last dot.** Something stands in front of that dot, and the
name is not the two dots that lead upwards. The way back is unique, since an extension has no dots.
-/
theorem extension?_eq_some_iff : extension? name = some extension ↔
    ∃ stem, stem ≠ "" ∧ name = stem ++ "." ++ extension ∧ '.' ∉ extension.toList ∧
      name ≠ ".." := by
  constructor
  · intro h
    -- Two dots are a name of their own and have no extension.
    by_cases hdots : name = ".."
    · subst hdots
      cases h
    · rcases noDot_or_dotted name with hnone | ⟨stem, after, rfl, hafter⟩
      · rw [extension?, splitExtension_of_noDot hnone] at h
        cases h
      · rw [extension?, splitExtension_dotted hafter hdots] at h
        split at h
        · cases h
        · rename_i hstem
          cases h
          exact ⟨stem, hstem, rfl, hafter, hdots⟩
  · rintro ⟨stem, hstem, rfl, hnone, hdots⟩
    rw [extension?, splitExtension_dotted hnone hdots, if_neg hstem]

/-- What is left of a name is shorter if the name has an extension, so it is the name only if there
is none. -/
theorem splitExtension_fst_eq_iff : (splitExtension name).1 = name ↔ extension? name = none := by
  constructor
  · intro h
    cases hextension : extension? name with
    | none => rfl
    | some extension =>
      obtain ⟨stem, hstem, rfl, hnone, hdots⟩ := extension?_eq_some_iff.mp hextension
      rw [splitExtension_dotted hnone hdots, if_neg hstem] at h
      -- The name has the dot and the extension besides, so it is longer than its stem.
      have hlength := congrArg (fun s => s.toList.length) h
      simp [String.toList_append] at hlength
  · intro h
    by_cases hdots : name = ".."
    · subst hdots
      rfl
    · rcases noDot_or_dotted name with hnone | ⟨stem, after, rfl, hafter⟩
      · rw [splitExtension_of_noDot hnone]
      · rw [extension?, splitExtension_dotted hafter hdots] at h
        rw [splitExtension_dotted hafter hdots]
        split at h
        · rename_i hstem
          rw [if_pos hstem]
        · cases h

/-- What is left of a name has no characters but those of the name. -/
theorem mem_of_mem_stem {c : Char} (h : c ∈ (splitExtension name).1.toList) : c ∈ name.toList := by
  unfold splitExtension at h
  dsimp only at h
  split at h
  · exact h
  · rw [String.toList_ofList] at h
    exact List.mem_of_mem_take h

/-- A new extension makes up no characters but the dot; so a name stays without slashes if the
extension has none. -/
theorem mem_withExtension {c : Char} (h : c ∈ (withExtension name extension).toList) :
    c ∈ name.toList ∨ c = '.' ∨ c ∈ extension.toList := by
  unfold withExtension at h
  split at h
  · exact .inl h
  · dsimp only at h
    split at h
    · exact .inl (mem_of_mem_stem h)
    · rw [String.toList_append, String.toList_append, List.mem_append, List.mem_append] at h
      rcases h with (h | h) | h
      · exact .inl (mem_of_mem_stem h)
      · exact .inr (.inl (List.mem_singleton.mp h))
      · exact .inr (.inr h)

/-! ## Off and on again -/

/-- What is found again after `.json` was taken off: no extension is left, and what is left does not
name a directory, this one or the one above. -/
structure IsPlainStem (stem : String) : Prop where
  noExtension : extension? stem = none
  ne_dot : stem ≠ "."
  ne_dots : stem ≠ ".."

instance (stem : String) : Decidable (IsPlainStem stem) :=
  decidable_of_iff (extension? stem = none ∧ stem ≠ "." ∧ stem ≠ "..")
    ⟨fun ⟨h₁, h₂, h₃⟩ => ⟨h₁, h₂, h₃⟩, fun ⟨h₁, h₂, h₃⟩ => ⟨h₁, h₂, h₃⟩⟩

/-- The dot is part of the ending. -/
theorem json_eq (stem : String) : stem ++ ".json" = stem ++ "." ++ "json" := by
  rw [String.append_assoc]
  rfl

/-- A name that ends so is never the one of the directory above. -/
theorem json_ne_dots (stem : String) : stem ++ ".json" ≠ ".." := by
  intro h
  have hlength := congrArg (fun s => s.toList.length) h
  simp [String.toList_append] at hlength

/-- The documents of a directory are the files named so: with an ending of `.json` and something in
front of it. -/
theorem extension?_eq_json_iff :
    extension? name = some "json" ↔ ∃ stem, stem ≠ "" ∧ name = stem ++ ".json" := by
  rw [extension?_eq_some_iff]
  constructor
  · rintro ⟨stem, hstem, hname, -, -⟩
    exact ⟨stem, hstem, by rw [hname, json_eq]⟩
  · rintro ⟨stem, hstem, rfl⟩
    exact ⟨stem, hstem, json_eq stem, by decide, json_ne_dots stem⟩

/-- Taking the extension off leaves the stem, except that a single dot becomes two: `..` is left for
a moment, which has no extension to drop. -/
theorem withoutExtension_json (hstem : stem ≠ "") :
    withoutExtension (stem ++ ".json") = if stem = "." then ".." else stem := by
  have hextension : extension? (stem ++ ".json") = some "json" :=
    extension?_eq_json_iff.mpr ⟨stem, hstem, rfl⟩
  -- The extension is cut off first and the dot after it, as if the extension were empty.
  have hdropped : ((stem ++ ".json").dropEnd "json".length).toString = stem ++ "." := by
    refine String.toList_injective ?_
    show ((stem ++ ".json").dropEnd 4).copy.toList = _
    have hlist : (stem ++ ".json").toList = (stem ++ ".").toList ++ ['j', 's', 'o', 'n'] := by
      simp [String.toList_append]
    rw [String.toList_copy_dropEnd, hlist, List.length_append]
    exact List.take_left
  unfold withoutExtension
  rw [hextension]
  dsimp only
  rw [hdropped]
  unfold withExtension
  by_cases hdot : stem = "."
  · subst hdot
    rfl
  · have hdots : stem ++ "." ++ "" ≠ ".." := by
      rw [String.append_empty]
      intro h
      exact hdot ((String.append_left_inj ".").mp h)
    have hsplit : splitExtension (stem ++ "." ++ "") = _ := splitExtension_dotted (by decide) hdots
    rw [String.append_empty] at hdots hsplit
    rw [if_neg (by rwa [beq_iff_eq]), hsplit, if_neg hstem, if_neg hdot]
    rfl

/-- **Only plain stems survive.** What a name becomes when its extension is taken off and `.json` is
put on is the name exactly for a plain stem: putting it on replaces what the stem has as an
extension, and does nothing to the names of directories. -/
theorem withExtension_withoutExtension_iff (hstem : stem ≠ "") :
    withExtension (withoutExtension (stem ++ ".json")) "json" = stem ++ ".json" ↔
      IsPlainStem stem := by
  rw [withoutExtension_json hstem]
  by_cases hdot : stem = "."
  · subst hdot
    decide
  · rw [if_neg hdot]
    by_cases hdots : stem = ".."
    · subst hdots
      decide
    -- Any other stem keeps all but its own extension.
    · have hname : withExtension stem "json" = (splitExtension stem).1 ++ ".json" := by
        unfold withExtension
        rw [if_neg (by rwa [beq_iff_eq])]
        show (splitExtension stem).1 ++ "." ++ "json" = _
        rw [json_eq]
      rw [hname, String.append_left_inj, splitExtension_fst_eq_iff]
      exact ⟨fun h => ⟨h, hdot, hdots⟩, fun h => h.noExtension⟩

/-- Two stems leave the same key only if they are the same, or both are dots: the one exception of
`withoutExtension_json` is the one collision. -/
theorem withoutExtension_json_inj {other : String} (hstem : stem ≠ "") (hother : other ≠ "")
    (h : withoutExtension (stem ++ ".json") = withoutExtension (other ++ ".json")) :
    stem = other ∨ stem = "." ∧ other = ".." ∨ stem = ".." ∧ other = "." := by
  rw [withoutExtension_json hstem, withoutExtension_json hother] at h
  by_cases hdot : stem = "."
  · rw [if_pos hdot] at h
    by_cases hdot' : other = "."
    · exact .inl (hdot.trans hdot'.symm)
    · rw [if_neg hdot'] at h
      exact .inr (.inl ⟨hdot, h.symm⟩)
  · rw [if_neg hdot] at h
    by_cases hdot' : other = "."
    · rw [if_pos hdot'] at h
      exact .inr (.inr ⟨h, hdot'⟩)
    · rw [if_neg hdot'] at h
      exact .inl h

end CommandCompletion.Path
