/-
Trees of files: what names lead to, and how paths and listings agree on it.

`Entry.at?` follows names down a tree and nothing else. It is the yardstick for
the two ways the program goes through one. Listing the documents below a
directory finds exactly the names that lead to a document, each once
(`mem_documentsIn`, `nodup_documentsIn`). Following a path that was joined from
a directory and such names finds the very entry (`find_joinAll`).

Both need a tree as a file system holds it: the names in a directory are names,
and no two of its entries share one (`Entry.WellFormed`).
-/
import CommandCompletion.Catalog.Source
import CommandCompletion.Proofs.PathParts

set_option autoImplicit false

namespace CommandCompletion

open CommandCompletion.Path (IsName joinAll)

/-! ## Well-formed trees -/

namespace Entry

/-- A tree as a file system holds it: in each directory the names are names, none is too long, and
no two entries share one. -/
inductive WellFormed : Entry → Prop where
  | file (bytes : ByteArray) : WellFormed (.file bytes)
  | folder {entries : List (String × Entry)} (hnames : ∀ entry ∈ entries, IsName entry.1)
      (hlength : ∀ entry ∈ entries, Text.byteLength entry.1.toList ≤ Files.maxNameBytes)
      (hdistinct : (entries.map (·.1)).Nodup) (hbelow : ∀ entry ∈ entries, WellFormed entry.2) :
      WellFormed (.folder entries)

/-- What names lead to from an entry, one name after the other. A file has nothing below it. -/
def at? : Entry → List String → Option Entry
  | entry, [] => some entry
  | .file _, _ :: _ => none
  | .folder entries, name :: names =>
    match entries.lookup name with
    | some entry => entry.at? names
    | none => none

variable {entry found : Entry} {entries : List (String × Entry)} {name : String}
variable {names : List String}

/-- An entry that is found by its name is one of the entries, under this name. -/
theorem mem_of_lookup (h : entries.lookup name = some entry) : (name, entry) ∈ entries := by
  obtain ⟨before, after, rfl, -⟩ := List.lookup_eq_some_iff.mp h
  exact List.mem_append_right _ List.mem_cons_self

/-- Names that lead somewhere are names of entries. By induction on the names, with the entry they
start from left arbitrary. -/
theorem WellFormed.isName_of_at? (hentry : entry.WellFormed) (h : entry.at? names = some found) :
    ∀ name ∈ names, IsName name := by
  induction names generalizing entry with
  | nil => simp
  | cons name names ih =>
    cases hentry with
    | file => cases h
    | folder hnames hlength hdistinct hbelow =>
      rw [at?] at h
      split at h
      · rename_i next hnext
        have hmem := mem_of_lookup hnext
        intro other hother
        rcases List.mem_cons.mp hother with rfl | hother
        · exact hnames _ hmem
        · exact ih (hbelow _ hmem) h other hother
      · cases h

end Entry

/-! ## Following a path -/

namespace Files

variable {above above' : List Entry} {here here' middle found : Entry}
variable {part : String} {parts names : List String}

/-- One part of a path: where it leads, and the directories passed on the way there. Those are kept
since two dots lead back to the last of them. -/
def step (above : List Entry) (here : Entry) (part : String) :
    Except FileCause (List Entry × Entry) :=
  match here with
  | .file _ => .error .notDirectory
  | .folder entries =>
    if part = "" || part = "." then .ok (above, here)
    else if part = ".." then
      match above with
      | [] => .ok ([], here)
      | up :: above => .ok (above, up)
    else if maxNameBytes < Text.byteLength part.toList then .error .nameTooLong
    else
      match entries.lookup part with
      | some entry => .ok (here :: above, entry)
      | none => .error .notFound

/-- A path is followed part by part, so a run along it is a step and a run along the rest. -/
theorem follow_cons (above : List Entry) (here : Entry) (part : String) (parts : List String) :
    follow above here (part :: parts) =
      (step above here part).bind fun next => follow next.1 next.2 parts := by
  cases here with
  | file => rfl
  | folder entries =>
    rw [follow.eq_def]
    unfold step
    dsimp only
    by_cases hidle : (part = "" || part = ".") = true
    · rw [if_pos hidle, if_pos hidle]
      rfl
    · rw [if_neg hidle, if_neg hidle]
      by_cases hdots : part = ".."
      · rw [if_pos hdots, if_pos hdots]
        cases above <;> rfl
      · rw [if_neg hdots, if_neg hdots]
        split
        · rfl
        · cases entries.lookup part <;> rfl

/-- It can be followed if the first step can be made and the rest can be followed from there. -/
theorem follow_cons_eq_ok_iff : follow above here (part :: parts) = .ok found ↔
    ∃ above' here', step above here part = .ok (above', here') ∧
      follow above' here' parts = .ok found := by
  rw [follow_cons]
  cases step above here part with
  | error cause => simp [Except.bind]
  | ok next =>
    obtain ⟨above', here'⟩ := next
    constructor
    · intro h
      exact ⟨above', here', rfl, h⟩
    · rintro ⟨_, _, hnext, h⟩
      cases hnext
      exact h

/-- A name leads to the entry of this name. In a well-formed tree it is neither empty nor made of
dots, and it is not too long. -/
theorem step_of_lookup {entries : List (String × Entry)} {name : String}
    (hfolder : (Entry.folder entries).WellFormed) (h : entries.lookup name = some found) :
    step above (.folder entries) name = .ok (.folder entries :: above, found) := by
  cases hfolder with
  | folder hnames hlength hdistinct hbelow =>
    have hmem := Entry.mem_of_lookup h
    have hname : IsName name := hnames _ hmem
    have hidle : ¬ (name = "" || name = ".") = true := by
      simp [hname.ne_empty, hname.ne_dot]
    have hfits : ¬ maxNameBytes < Text.byteLength name.toList := Nat.not_lt.mpr (hlength _ hmem)
    unfold step
    dsimp only
    rw [if_neg hidle, if_neg hname.ne_dots, if_neg hfits, h]

/-- A step through a well-formed tree stays in it, with what lies above: it goes down to an entry,
up to what was passed, or nowhere. -/
theorem wellFormed_of_step (habove : ∀ entry ∈ above, entry.WellFormed) (hhere : here.WellFormed)
    (h : step above here part = .ok (above', here')) :
    (∀ entry ∈ above', entry.WellFormed) ∧ here'.WellFormed := by
  unfold step at h
  cases hhere with
  | file => cases h
  | folder hnames hlength hdistinct hbelow =>
    have hfolder : (Entry.folder _).WellFormed := .folder hnames hlength hdistinct hbelow
    -- In this order: the directory itself, the one above, a name that is too long, an entry.
    dsimp only at h
    split at h
    · cases h
      exact ⟨habove, hfolder⟩
    · split at h
      · split at h
        · cases h
          exact ⟨habove, hfolder⟩
        · cases h
          exact ⟨fun entry hmem => habove entry (List.mem_cons_of_mem _ hmem),
            habove _ List.mem_cons_self⟩
      · split at h
        · cases h
        · split at h
          · rename_i next hnext
            cases h
            refine ⟨?_, hbelow _ (Entry.mem_of_lookup hnext)⟩
            intro entry hmem
            rcases List.mem_cons.mp hmem with rfl | hmem
            · exact hfolder
            · exact habove entry hmem
          · cases h

/-- Every entry that a path leads to in a well-formed tree is well-formed, by induction on the parts
of the path. -/
theorem wellFormed_of_follow (habove : ∀ entry ∈ above, entry.WellFormed)
    (hhere : here.WellFormed) (h : follow above here parts = .ok found) : found.WellFormed := by
  induction parts generalizing above here with
  | nil =>
    cases h
    exact hhere
  | cons part parts ih =>
    obtain ⟨above', here', hstep, hrest⟩ := follow_cons_eq_ok_iff.mp h
    obtain ⟨habove', hhere'⟩ := wellFormed_of_step habove hhere hstep
    exact ih habove' hhere' hrest

/-- A path of names leads where the names lead, whatever lies above. The induction is on the names,
and each step is down. -/
theorem follow_names (hhere : here.WellFormed) (h : here.at? names = some found) :
    follow above here names = .ok found := by
  induction names generalizing above here with
  | nil =>
    cases h
    rfl
  | cons name names ih =>
    cases here with
    | file => cases h
    | folder entries =>
      rw [Entry.at?] at h
      split at h
      · rename_i next hnext
        have hstep : step above (.folder entries) name = .ok (.folder entries :: above, next) :=
          step_of_lookup hhere hnext
        cases hhere with
        | folder _ _ _ hbelow =>
          have hwell : next.WellFormed := hbelow _ (Entry.mem_of_lookup hnext)
          exact follow_cons_eq_ok_iff.mpr ⟨_, _, hstep, ih hwell h⟩
      · cases h

/-- A path can be followed in two stages, the second by names alone. What was passed in the first
stage does not matter, as names never lead back. -/
theorem follow_append (hmiddle : middle.WellFormed) (h : follow above here parts = .ok middle)
    (hnames : middle.at? names = some found) :
    follow above here (parts ++ names) = .ok found := by
  induction parts generalizing above here with
  | nil =>
    cases h
    exact follow_names hmiddle hnames
  | cons part parts ih =>
    obtain ⟨above', here', hstep, hrest⟩ := follow_cons_eq_ok_iff.mp h
    exact follow_cons_eq_ok_iff.mpr ⟨above', here', hstep, ih hrest⟩

/-- A slash at the end of a path leads nowhere else. It only asks for a directory, so without it the
path can be followed too. -/
theorem follow_of_slash (h : follow above here (parts ++ [""]) = .ok found) :
    follow above here parts = .ok found := by
  induction parts generalizing above here with
  | nil =>
    cases here with
    | file => cases h
    | folder entries => exact h
  | cons part parts ih =>
    rw [List.cons_append] at h
    obtain ⟨above', here', hstep, hrest⟩ := follow_cons_eq_ok_iff.mp h
    exact follow_cons_eq_ok_iff.mpr ⟨above', here', hstep, ih hrest⟩

variable {files : Files} {directory : String}

/-- A path that is found was not refused, and was followed from the root. -/
theorem follow_of_find (h : files.find directory = .ok found) :
    refusal? directory = none ∧ follow [] files.root (files.partsFromRoot directory) = .ok found := by
  unfold find at h
  split at h
  · cases h
  · rename_i hnone
    exact ⟨hnone, h⟩

/-- So what is found in a well-formed tree is well-formed. -/
theorem wellFormed_of_find (hfiles : files.root.WellFormed) (h : files.find directory = .ok found) :
    found.WellFormed :=
  wellFormed_of_follow (by simp) hfiles (follow_of_find h).2

/-- A path without a NUL that is short enough can be followed, if it is not empty. -/
theorem refusal?_eq_none_iff {path : String} : refusal? path = none ↔
    path ≠ "" ∧ '\x00' ∉ path.toList ∧ Text.byteLength path.toList ≤ maxPathBytes := by
  unfold refusal?
  rw [← Nat.not_lt]
  by_cases hempty : path = ""
  · simp [hempty]
  · by_cases hnul : '\x00' ∈ path.toList
    · simp [hempty, hnul]
    · simp [hempty, hnul]

/-- **Names joined to a directory denote what they lead to below it**, unless the path gets too
long. The parts of the joined path are those of the directory, up to a slash at its end, and the
names; the first lead to the directory and the others on from it. -/
theorem find_joinAll (hfiles : files.root.WellFormed) (hmiddle : files.find directory = .ok middle)
    (hnames : middle.at? names = some found) (hne : names ≠ [])
    (hlength : Text.byteLength (joinAll directory names).toList ≤ maxPathBytes) :
    files.find (joinAll directory names) = .ok found := by
  obtain ⟨hrefusal, hfollow⟩ := follow_of_find hmiddle
  obtain ⟨hempty, hnul, -⟩ := refusal?_eq_none_iff.mp hrefusal
  have hwell := wellFormed_of_find hfiles hmiddle
  have hall := hwell.isName_of_at? hnames
  have hclear : refusal? (joinAll directory names) = none := by
    refine refusal?_eq_none_iff.mpr ⟨Path.joinAll_ne_empty hempty hall, ?_, hlength⟩
    intro hcontra
    rcases Path.mem_joinAll hcontra with h | h | ⟨name, hmem, h⟩
    · exact hnul h
    · cases h
    · exact (hall name hmem).noNul h
  -- The directory may have been given with a slash at its end.
  obtain ⟨front, hfront, hjoined⟩ := files.partsFromRoot_joinAll hempty
  have hthere : follow [] files.root front = .ok middle := by
    rcases hfront with hfront | hfront
    · rw [← hfront]
      exact hfollow
    · rw [hfront] at hfollow
      exact follow_of_slash hfollow
  rw [find, hclear]
  dsimp only
  rw [hjoined names hne hall]
  exact follow_append hwell hthere hnames

end Files

/-! ## Listing documents -/

namespace Source

variable {above : List String} {name : String} {entry : Entry} {entries : List (String × Entry)}
variable {parts names : List String}

/-- The names lead from an entry to a document: a file whose name ends in `.json`. The last name is
`name` if there are no others, since a file itself may be the document. -/
def LeadsToDocument (entry : Entry) (name : String) (names : List String) : Prop :=
  (∃ bytes, entry.at? names = some (.file bytes)) ∧
    Path.extension? (names.getLastD name) = some "json"

/-- No names lead on from a file, so it is the document or there is none. -/
theorem leadsToDocument_file {bytes : ByteArray} : LeadsToDocument (.file bytes) name names ↔
    names = [] ∧ Path.extension? name = some "json" := by
  cases names with
  | nil => simp [LeadsToDocument, Entry.at?]
  | cons => simp [LeadsToDocument, Entry.at?]

/-- A directory itself is no document, so its name does not matter: a name of one of its entries
comes first. -/
theorem leadsToDocument_folder : LeadsToDocument (.folder entries) name names ↔
    ∃ next rest, names = next :: rest ∧ ∃ entry, entries.lookup next = some entry ∧
      LeadsToDocument entry next rest := by
  cases names with
  | nil => simp [LeadsToDocument, Entry.at?]
  | cons next rest =>
    have hlast : (next :: rest).getLastD name = rest.getLastD next := List.getLastD_cons ..
    unfold LeadsToDocument
    rw [hlast, Entry.at?]
    constructor
    · rintro ⟨⟨bytes, h⟩, hextension⟩
      split at h
      · rename_i entry hentry
        exact ⟨next, rest, rfl, entry, hentry, ⟨bytes, h⟩, hextension⟩
      · cases h
    · rintro ⟨_, _, hnames, entry, hentry, ⟨bytes, h⟩, hextension⟩
      cases hnames
      rw [hentry]
      exact ⟨⟨bytes, h⟩, hextension⟩

mutual

/-- The documents at or below an entry are listed, and nothing else: a file by its own name, a
directory by what is below it. -/
theorem mem_documentsOf (above : List String) (name : String) : ∀ entry : Entry,
    entry.WellFormed → (parts ∈ documentsOf above name entry ↔
      ∃ names, parts = above.reverse ++ name :: names ∧ LeadsToDocument entry name names)
  | .file bytes, _ => by
    simp only [leadsToDocument_file, documentsOf]
    by_cases h : Path.extension? name = some "json"
    · simp [h]
    · simp [h]
  | .folder entries, .folder _ _ hdistinct hbelow => by
    rw [documentsOf, mem_documentsIn (name :: above) entries hdistinct hbelow]
    simp only [leadsToDocument_folder, List.reverse_cons, List.append_assoc,
      List.singleton_append]
    constructor
    · rintro ⟨next, entry, rest, hparts, hnext, hleads⟩
      exact ⟨next :: rest, hparts, next, rest, rfl, entry, hnext, hleads⟩
    · rintro ⟨_, hparts, next, rest, rfl, entry, hnext, hleads⟩
      exact ⟨next, entry, rest, hparts, hnext, hleads⟩

/-- The documents below the entries of a directory are listed. That no two entries share a name
makes looking one up the same as being one of them. -/
theorem mem_documentsIn (above : List String) : ∀ entries : List (String × Entry),
    (entries.map (·.1)).Nodup → (∀ entry ∈ entries, entry.2.WellFormed) →
    (parts ∈ documentsIn above entries ↔ ∃ name entry names,
      parts = above.reverse ++ name :: names ∧ entries.lookup name = some entry ∧
        LeadsToDocument entry name names)
  | [], _, _ => by simp [documentsIn]
  | (name, entry) :: entries, hdistinct, hbelow => by
    rw [List.map_cons, List.nodup_cons] at hdistinct
    rw [documentsIn, List.mem_append, mem_documentsOf above name entry (hbelow _ List.mem_cons_self),
      mem_documentsIn above entries hdistinct.2 fun e h => hbelow e (List.mem_cons_of_mem _ h)]
    constructor
    · rintro (⟨names, hparts, hleads⟩ | ⟨other, found, names, hparts, hfound, hleads⟩)
      · exact ⟨name, entry, names, hparts, by simp, hleads⟩
      -- An entry further on has another name, so the first one does not hide it.
      · have hne : other ≠ name := by
          rintro rfl
          exact hdistinct.1 (List.mem_map.mpr ⟨_, Entry.mem_of_lookup hfound, rfl⟩)
        refine ⟨other, found, names, hparts, ?_, hleads⟩
        rw [List.lookup_cons, beq_eq_false_iff_ne.mpr hne]
        exact hfound
    · rintro ⟨other, found, names, hparts, hfound, hleads⟩
      by_cases hsame : other = name
      · subst hsame
        rw [List.lookup_cons, beq_self_eq_true] at hfound
        cases hfound
        exact .inl ⟨names, hparts, hleads⟩
      · rw [List.lookup_cons, beq_eq_false_iff_ne.mpr hsame] at hfound
        exact .inr ⟨other, found, names, hparts, hfound, hleads⟩

end

mutual

/-- No document is listed twice at or below an entry. -/
theorem nodup_documentsOf (above : List String) (name : String) : ∀ entry : Entry,
    entry.WellFormed → (documentsOf above name entry).Nodup
  | .file bytes, _ => by
    rw [documentsOf]
    split
    · simp
    · exact List.nodup_nil
  | .folder entries, .folder _ _ hdistinct hbelow => by
    rw [documentsOf]
    exact nodup_documentsIn (name :: above) entries hdistinct hbelow

/-- No document is listed twice: below different entries, the names differ. -/
theorem nodup_documentsIn (above : List String) : ∀ entries : List (String × Entry),
    (entries.map (·.1)).Nodup → (∀ entry ∈ entries, entry.2.WellFormed) →
    (documentsIn above entries).Nodup
  | [], _, _ => by
    rw [documentsIn]
    exact List.nodup_nil
  | (name, entry) :: entries, hdistinct, hbelow => by
    rw [List.map_cons, List.nodup_cons] at hdistinct
    have hentry : entry.WellFormed := hbelow _ List.mem_cons_self
    have hrest : ∀ entry ∈ entries, entry.2.WellFormed :=
      fun entry h => hbelow entry (List.mem_cons_of_mem _ h)
    rw [documentsIn, List.nodup_append]
    refine ⟨nodup_documentsOf above name entry hentry,
      nodup_documentsIn above entries hdistinct.2 hrest, ?_⟩
    -- Names that were listed for both begin with the name of this entry and with that of another.
    rintro parts hleft _ hright rfl
    obtain ⟨names, hparts, -⟩ := (mem_documentsOf above name entry hentry).mp hleft
    obtain ⟨other, found, names', hparts', hfound, -⟩ :=
      (mem_documentsIn above entries hdistinct.2 hrest).mp hright
    rw [hparts] at hparts'
    have hsame := List.append_cancel_left hparts'
    cases hsame
    exact hdistinct.1 (List.mem_map.mpr ⟨_, Entry.mem_of_lookup hfound, rfl⟩)

end

/-- The documents below a well-formed directory, by the names that lead there: these are listed and
no others. -/
theorem mem_documentsIn_iff (hfolder : (Entry.folder entries).WellFormed) :
    parts ∈ documentsIn [] entries ↔ LeadsToDocument (.folder entries) "" parts := by
  cases hfolder with
  | folder _ _ hdistinct hbelow =>
    rw [mem_documentsIn [] entries hdistinct hbelow, leadsToDocument_folder]
    constructor
    · rintro ⟨next, entry, rest, hparts, hnext, hleads⟩
      exact ⟨next, rest, hparts, entry, hnext, hleads⟩
    · rintro ⟨next, rest, hparts, entry, hnext, hleads⟩
      exact ⟨next, entry, rest, hparts, hnext, hleads⟩

end Source

end CommandCompletion
