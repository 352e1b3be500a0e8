/-
The directory that a word points into.

A word falls into a directory part, which ends in its last separator, and the rest
(`Shell.Parts`). Reading it as a path comes down to one question to the files, whether
a certain directory is there (`PathReading.LooksAt`). As a rule that is the directory
part with slashes for separators, seen from the working directory.

The exception are words that begin with a tilde. Nothing is asked about what follows
it, so `~name/` leads below the home directory as `~/name/` does, and not to a directory
`~name` (`ofText_looksAt`).
-/
import CommandCompletion.PathReading
import CommandCompletion.Proofs.Trimming

set_option autoImplicit false

namespace CommandCompletion

/-! ## The parts of a word -/

namespace Shell

variable {shell : Shell} {text directory last : String}

/-- The word `text` has a directory part that ends in its last separator. -/
structure Parts (shell : Shell) (text directory last : String) : Prop where
  whole : text = directory ++ last
  ends : ∃ c ∈ directory.toList.getLast?, shell.isSeparator c = true
  plain : ∀ c ∈ last.toList, shell.isSeparator c = false

/-- Without a separator there is no directory part: reading from the end, all characters are passed
over. -/
theorem directoryPart_of_plain (h : ∀ c ∈ text.toList, shell.isSeparator c = false) :
    shell.directoryPart text = "" := by
  have hall : ∀ c ∈ text.toList.reverse, (!shell.isSeparator c) = true := by
    intro c hc
    rw [h c (List.mem_reverse.mp hc)]
    rfl
  unfold directoryPart Text.uptoLast
  rw [← List.append_nil text.toList.reverse, List.dropWhile_append_of_pos hall]
  rfl

/-- The directory part is what the shell cuts off, since that goes up to the last separator as well.
-/
theorem directoryPart_of_parts (h : shell.Parts text directory last) :
    shell.directoryPart text = directory := by
  obtain ⟨c, hlast, hc⟩ := h.ends
  have hplain : ∀ c ∈ last.toList.reverse, (!shell.isSeparator c) = true := by
    intro c hc
    rw [h.plain c (List.mem_reverse.mp hc)]
    rfl
  -- From behind, the last part is passed over, and the separator stops the search.
  obtain ⟨front, hfront⟩ := List.getLast?_eq_some_iff.mp hlast
  apply String.toList_injective
  unfold directoryPart Text.uptoLast
  rw [h.whole, String.toList_append, List.reverse_append, List.dropWhile_append_of_pos hplain,
    hfront, List.reverse_concat, List.dropWhile_cons_of_neg (by rw [hc]; exact Bool.false_ne_true),
    String.toList_ofList, ← List.reverse_concat, List.reverse_reverse]

/-- So the rest is what it leaves. -/
theorem baseName_of_parts (h : shell.Parts text directory last) : shell.baseName text = last := by
  have htext := shell.directoryPart_append_baseName text
  rw [directoryPart_of_parts h] at htext
  exact (String.append_right_inj _).mp (htext.trans h.whole)

/-- Every word either has no separator or has such parts: those that the shell cuts it into. -/
theorem plain_or_exists_parts (shell : Shell) (text : String) :
    (∀ c ∈ text.toList, shell.isSeparator c = false) ∨
      ∃ directory last, shell.Parts text directory last := by
  -- Both halves as they are computed, whether or not there is a separator.
  have hlast : ∀ c ∈ (shell.baseName text).toList, shell.isSeparator c = false := by
    unfold baseName Text.afterLast
    rw [String.toList_ofList]
    intro c hc
    have hplain := List.all_eq_true.mp List.all_takeWhile c (List.mem_reverse.mp hc)
    simpa using hplain
  have hends : ∀ c ∈ (shell.directoryPart text).toList.getLast?, shell.isSeparator c = true := by
    unfold directoryPart Text.uptoLast
    rw [String.toList_ofList, List.getLast?_reverse]
    intro c hc
    have hsep := Text.head?_dropWhile _ _ c hc
    simpa using hsep
  have hwhole := (shell.directoryPart_append_baseName text).symm
  -- If nothing is cut off, there was no separator.
  cases hcase : (shell.directoryPart text).toList.getLast? with
  | none =>
    have hempty : shell.directoryPart text = "" :=
      String.toList_eq_nil_iff.mp (List.getLast?_eq_none_iff.mp hcase)
    rw [hempty, String.empty_append] at hwhole
    rw [hwhole]
    exact .inl hlast
  | some c => exact .inr ⟨_, _, hwhole, ⟨c, hcase, hends c hcase⟩, hlast⟩

/-- The word ends in a separator exactly if nothing stands behind the directory part. -/
theorem endsInSeparator_iff (h : shell.Parts text directory last) :
    (∃ c ∈ text.toList.getLast?, shell.isSeparator c = true) ↔ last = "" := by
  by_cases hnone : last = ""
  · have htext := h.whole
    rw [hnone, String.append_empty] at htext
    rw [htext]
    exact iff_of_true h.ends hnone
  · refine iff_of_false ?_ hnone
    rintro ⟨c, hc, hsep⟩
    have hlist : last.toList ≠ [] := fun hcontra => hnone (String.toList_eq_nil_iff.mp hcontra)
    rw [h.whole, String.toList_append, List.getLast?_append,
      List.getLast?_eq_some_getLast hlist, Option.some_or] at hc
    rw [← Option.some.inj hc, h.plain _ (List.getLast_mem hlist)] at hsep
    cases hsep

end Shell

/-! ## What is looked at -/

namespace PathReading

variable {home : Option String} {shell : Shell} {cwd text directory last looked : String}

/-- The text with slashes for the separators of the shell. -/
def withSlashes (shell : Shell) (text : String) : String :=
  String.ofList (text.toList.map fun c => if shell.isSeparator c then '/' else c)

/-- The text without the slashes and backslashes that it begins with. -/
def unrooted (text : String) : String :=
  String.ofList (text.toList.dropWhile fun c => c == '/' || c == '\\')

/-- The word reads as a path if `looked` is a directory, and then it is the one whose entries are
offered. Otherwise the word is no path at all. So the answer hangs on this one directory, whatever
the files are. -/
structure LooksAt (home : Option String) (shell : Shell) (cwd text looked : String) : Prop where
  found : ∀ files, files.isDirectory looked = true →
    (ofText ⟨files, home⟩ shell cwd text).isPath = true ∧
      (ofText ⟨files, home⟩ shell cwd text).directory = looked ∧
      ((ofText ⟨files, home⟩ shell cwd text).isPathComplete = true ↔
        ∃ c ∈ text.toList.getLast?, shell.isSeparator c = true)
  missed : ∀ files, files.isDirectory looked = false →
    ofText ⟨files, home⟩ shell cwd text = { directory := cwd }

/-- A word without a separator is no path, so what is offered for it are the entries of the working
directory. -/
theorem ofText_of_plain (h : ∀ c ∈ text.toList, shell.isSeparator c = false) (files : Files) :
    ofText ⟨files, home⟩ shell cwd text = { directory := cwd } := by
  unfold ofText
  rw [Shell.directoryPart_of_plain h]
  rfl

/-- A word with a directory part looks at one directory, which does not depend on the files. -/
theorem looksAt_of_parts (h : shell.Parts text directory last) :
    LooksAt home shell cwd text (Path.join cwd (candidate home shell text)) := by
  have hdirectory : (shell.directoryPart text).isEmpty = false := by
    rw [Shell.directoryPart_of_parts h, Bool.eq_false_iff]
    intro hempty
    obtain ⟨c, hc, -⟩ := h.ends
    rw [String.isEmpty_iff.mp hempty] at hc
    cases hc
  have hreading : ∀ files, ofText ⟨files, home⟩ shell cwd text =
      if files.isDirectory (Path.join cwd (candidate home shell text)) then
        ⟨Path.join cwd (candidate home shell text), true, last.isEmpty⟩
      else { directory := cwd } := by
    intro files
    unfold ofText
    rw [hdirectory, if_neg Bool.false_ne_true, Shell.baseName_of_parts h]
  constructor
  · intro files hthere
    rw [hreading files, if_pos hthere]
    dsimp only
    rw [String.isEmpty_iff, Shell.endsInSeparator_iff h]
    exact ⟨rfl, rfl, Iff.rfl⟩
  · intro files hmissing
    rw [hreading files, if_neg (by rw [hmissing]; exact Bool.false_ne_true)]

/-- The directory part begins as the word does: it is not empty, as it ends in a separator. -/
theorem head?_of_parts (h : shell.Parts text directory last) :
    directory.toList.head? = text.toList.head? := by
  obtain ⟨c, hc, -⟩ := h.ends
  rw [h.whole, String.toList_append]
  cases hlist : directory.toList with
  | nil =>
    rw [hlist] at hc
    cases hc
  | cons c cs => rfl

/-- No shell separates at a tilde, so the tilde is the first character of the first name. -/
theorem isSeparator_tilde (shell : Shell) : shell.isSeparator '~' = false := by
  cases shell <;> decide

/-- So it stays when the separators become slashes. -/
theorem withSlashes_tilde (shell : Shell) (below : String) :
    withSlashes shell ("~" ++ below) = "~" ++ withSlashes shell below := by
  have hlist (rest : String) : ("~" ++ rest).toList = '~' :: rest.toList := by
    rw [String.toList_append]
    rfl
  apply String.toList_injective
  rw [hlist]
  unfold withSlashes
  rw [String.toList_ofList, String.toList_ofList, hlist, List.map_cons, isSeparator_tilde,
    if_neg Bool.false_ne_true]

/-- What is looked at is the directory part with slashes, after the home directory was put in place
of a tilde. -/
theorem candidate_of_parts (h : shell.Parts text directory last) :
    candidate home shell text = expandHome home (withSlashes shell directory) := by
  unfold candidate
  rw [Shell.directoryPart_of_parts h]
  rfl

/-- Below the home directory, whatever follows the tilde: the slashes there are taken off, but none
has to be there. -/
theorem candidate_of_tilde {house below : String} (h : shell.Parts text directory last)
    (hbelow : directory = "~" ++ below) :
    candidate (some house) shell text = Path.join house (unrooted (withSlashes shell below)) := by
  have htilde : ("~" ++ withSlashes shell below).toList =
      '~' :: (withSlashes shell below).toList := by
    rw [String.toList_append]
    rfl
  rw [candidate_of_parts h, hbelow, withSlashes_tilde]
  unfold expandHome
  rw [htilde]
  rfl

/-- Without a home directory, or without a tilde, the directory part is taken as it is. Slashes for
separators cannot make a tilde, so the first character tells. -/
theorem candidate_of_ordinary (h : shell.Parts text directory last)
    (hordinary : home = none ∨ text.toList.head? ≠ some '~') :
    candidate home shell text = withSlashes shell directory := by
  rw [candidate_of_parts h]
  unfold expandHome
  split
  · rename_i rest house hslashes
    rcases hordinary with hhome | hhead
    · cases hhome
    · exfalso
      apply hhead
      rw [← head?_of_parts h]
      -- A tilde at the front of the text with slashes was one before.
      have hmapped : (withSlashes shell directory).toList.head? = some '~' := by
        rw [hslashes]
        rfl
      unfold withSlashes at hmapped
      rw [String.toList_ofList, List.head?_map] at hmapped
      obtain ⟨c, hc, htilde⟩ := Option.map_eq_some_iff.mp hmapped
      split at htilde
      · exact absurd htilde (by decide)
      · rw [hc, htilde]
  · rfl

/-- **Home is where any word leads that begins with a tilde** (specification, § E2.5). A word
without a separator is no path. The directory that another one looks at is its directory part, seen
from the working directory; but if it begins with a tilde, and there is a home directory, that is
where the rest of the directory part is looked for, also if the tilde is only the first character of
a name. The two cases are those of `plain_or_exists_parts`; the rest is what expanding the home
directory does with the first character. -/
theorem ofText_looksAt (home : Option String) (shell : Shell) (cwd text : String) :
    ((∀ c ∈ text.toList, shell.isSeparator c = false) ∧
      ∀ files, ofText ⟨files, home⟩ shell cwd text = { directory := cwd }) ∨
    ∃ directory last looked, shell.Parts text directory last ∧
      LooksAt home shell cwd text looked ∧
      (home = none ∨ text.toList.head? ≠ some '~' →
        looked = Path.join cwd (withSlashes shell directory)) ∧
      ∀ house below, home = some house → directory = "~" ++ below →
        looked = Path.join cwd (Path.join house (unrooted (withSlashes shell below))) := by
  rcases shell.plain_or_exists_parts text with hplain | ⟨directory, last, hparts⟩
  · exact .inl ⟨hplain, ofText_of_plain hplain⟩
  · refine .inr ⟨directory, last, _, hparts, looksAt_of_parts hparts, ?_, ?_⟩
    · intro hordinary
      rw [candidate_of_ordinary hparts hordinary]
    · rintro house below rfl hbelow
      rw [candidate_of_tilde hparts hbelow]

/-! The home directory is `/home/u`, and there are directories `/home/u/name` and
`/w/~name`. -/

/-- A directory with the same name below the home directory, and one whose name has the tilde in it.
-/
def tildeFiles : Files where
  root := .folder [("home", .folder [("u", .folder [("name", .folder [])])]),
    ("w", .folder [("~name", .folder [])])]

/-- In `/w`, the word `~name/x` points below the home directory, though its own directory part is
there as well. -/
theorem ofText_tildeName :
    Shell.bash.Parts "~name/x" "~name/" "x" ∧
    tildeFiles.isDirectory (Path.join "/w" (withSlashes .bash "~name/")) = true ∧
    ofText ⟨tildeFiles, some "/home/u"⟩ .bash "/w" "~name/x" =
      { directory := "/home/u/name/", isPath := true } ∧
    ¬ LooksAt (some "/home/u") .bash "/w" "~name/x"
      (Path.join "/w" (withSlashes .bash "~name/")) := by
  have hparts : Shell.bash.Parts "~name/x" "~name/" "x" :=
    ⟨by decide, ⟨'/', by decide, by decide⟩, List.forall_mem_singleton.mpr rfl⟩
  have hthere : tildeFiles.isDirectory (Path.join "/w" (withSlashes .bash "~name/")) = true := by
    decide +kernel
  have hreading : ofText ⟨tildeFiles, some "/home/u"⟩ .bash "/w" "~name/x" =
      { directory := "/home/u/name/", isPath := true } := by
    decide +kernel
  refine ⟨hparts, hthere, hreading, ?_⟩
  intro hlooks
  have hdirectory := (hlooks.found tildeFiles hthere).2.1
  rw [hreading] at hdirectory
  exact absurd hdirectory (by decide +kernel)

end PathReading

end CommandCompletion
