/-
A file that was written is read back.

Writing turns the path into the names it leads through, where `..` undoes the name before
it; reading walks the path again, back through the directories it came from. The two agree
because the walk always stands where the names say (`Stands`), and because writing leaves
every directory a directory (`exists_at?_update`), so the same walk can be made afterwards
(`exists_follow`).

Nothing is assumed of the tree.
-/
import CommandCompletion.Files.Change
import CommandCompletion.Proofs.FileTrees

set_option autoImplicit false

namespace CommandCompletion

/-! ## Changing a tree -/

section

variable {name other : String} {entries : List (String × Entry)}

/-- What is put under a name is found there, whether or not the name was taken. -/
theorem lookup_setEntry_self (name : String) (entry : Entry) (entries : List (String × Entry)) :
    (setEntry name (some entry) entries).lookup name = some entry := by
  induction entries with
  | nil => exact List.lookup_cons_self
  | cons first entries ih =>
    obtain ⟨key, old⟩ := first
    rw [setEntry]
    split
    · exact List.lookup_cons_self
    · rename_i hne
      rw [List.lookup_cons, beq_eq_false_iff_ne.mpr fun h => hne h.symm]
      exact ih

/-- What stands under other names stays. -/
theorem lookup_setEntry_of_ne (h : other ≠ name) (entry : Entry)
    (entries : List (String × Entry)) :
    (setEntry name (some entry) entries).lookup other = entries.lookup other := by
  have hother : (other == name) = false := beq_eq_false_iff_ne.mpr h
  induction entries with
  | nil =>
    show [(name, entry)].lookup other = _
    rw [List.lookup_cons, hother]
  | cons first entries ih =>
    obtain ⟨key, old⟩ := first
    rw [setEntry]
    split
    · rename_i hkey
      subst hkey
      show ((key, entry) :: entries).lookup other = _
      rw [List.lookup_cons, List.lookup_cons, hother]
    · rw [List.lookup_cons, List.lookup_cons, ih]

end

namespace Entry

variable {here next : Entry} {names more : List String}

/-- Names can be followed in two stages. -/
theorem at?_append (entry : Entry) (names more : List String) :
    entry.at? (names ++ more) = (entry.at? names).bind (·.at? more) := by
  induction names generalizing entry with
  | nil => rfl
  | cons name names ih =>
    cases entry with
    | file => rfl
    | folder entries =>
      rw [List.cons_append, at?, at?]
      cases entries.lookup name with
      | none => rfl
      | some next => exact ih next

/-- What is put at a place is found there. By induction on the names that lead to it; what is
missing on the way is made. -/
theorem exists_update (new : Entry) (names : List String) (here : Option Entry) :
    ∃ changed, update (fun _ => some new) names here = some changed ∧
      changed.at? names = some new := by
  induction names generalizing here with
  | nil => exact ⟨new, rfl, rfl⟩
  | cons name names ih =>
    have inside : ∀ entries : List (String × Entry), ∃ changed,
        some (folder
          (setEntry name (update (fun _ => some new) names (entries.lookup name)) entries)) =
          some changed ∧ changed.at? (name :: names) = some new := by
      intro entries
      obtain ⟨changed, hchanged, hfound⟩ := ih (entries.lookup name)
      refine ⟨_, rfl, ?_⟩
      rw [at?, hchanged, lookup_setEntry_self]
      exact hfound
    cases here with
    | none => exact inside []
    | some entry =>
      cases entry with
      | file => exact inside []
      | folder entries => exact inside entries

/-- Names that lead to a directory still do when a file is put where there was none. They may share
their first names with the way to the file, so the induction follows both. -/
theorem exists_at?_update (bytes : ByteArray) (names : List String) {here changed : Entry}
    (hplace : ∀ entries, here.at? names ≠ some (.folder entries))
    (hchanged : update (fun _ => some (.file bytes)) names (some here) = some changed)
    {others : List String} {entries : List (String × Entry)}
    (h : here.at? others = some (.folder entries)) :
    ∃ entries', changed.at? others = some (.folder entries') := by
  induction names generalizing here changed others with
  | nil =>
    cases here with
    | folder entries => exact absurd rfl (hplace entries)
    | file => cases others <;> cases h
  | cons name names ih =>
    cases here with
    | file => cases others <;> cases h
    | folder within =>
      obtain ⟨inner, hinner, -⟩ := exists_update (.file bytes) names (within.lookup name)
      rw [update] at hchanged
      rw [hinner] at hchanged
      obtain rfl := Option.some.inj hchanged
      cases others with
      | nil => exact ⟨_, rfl⟩
      | cons other others =>
        -- Below the changed entry the change is the same again; beside it there is none.
        by_cases hother : other = name
        · subst hother
          rw [at?] at h
          rw [at?, lookup_setEntry_self]
          split at h
          · rename_i next hnext
            rw [hnext] at hinner
            refine ih (fun entries hfolder => hplace entries ?_) hinner h
            rw [at?, hnext]
            exact hfolder
          · cases h
        · refine ⟨entries, ?_⟩
          rw [at?, lookup_setEntry_of_ne hother]
          exact h

end Entry

/-! ## One step of a walk -/

namespace Files

/-- Is the name of an entry that a directory can have, and no way through the tree: the empty name
and those of dots lead elsewhere. -/
structure Nameable (name : String) : Prop where
  ne_empty : name ≠ ""
  ne_dot : name ≠ "."
  ne_dots : name ≠ ".."
  length : Text.byteLength name.toList ≤ maxNameBytes

/-- The ways in which one part of a path leads on from a directory with these entries: nowhere, up,
or down to an entry. At the top, up leads nowhere. -/
inductive Steps (above : List Entry) (entries : List (String × Entry)) :
    String → List Entry → Entry → Prop where
  | idle {part : String} (h : part = "" ∨ part = ".") :
      Steps above entries part above (.folder entries)
  | top (h : above = []) : Steps above entries ".." [] (.folder entries)
  | up {up : Entry} {rest : List Entry} (h : above = up :: rest) : Steps above entries ".." rest up
  | down {name : String} {entry : Entry} (hname : Nameable name)
      (hentry : entries.lookup name = some entry) :
    Steps above entries name (.folder entries :: above) entry

variable {root root' here here' found next : Entry} {above above' nextAbove : List Entry}
variable {entries : List (String × Entry)} {names parts : List String} {part name : String}

/-- Each of these ways is a step that can be made. -/
theorem Steps.step (h : Steps above entries part nextAbove next) :
    step above (.folder entries) part = .ok (nextAbove, next) := by
  unfold Files.step
  dsimp only
  cases h with
  | idle h => rw [if_pos (by simpa using h)]
  | top h =>
    subst h
    rfl
  | up h =>
    subst h
    rfl
  | down hname hentry =>
    rw [if_neg (by simp [hname.ne_empty, hname.ne_dot]), if_neg hname.ne_dots,
      if_neg (Nat.not_lt.mpr hname.length), hentry]

/-- There are no other ways, and none from a file. -/
theorem exists_steps (h : step above here part = .ok (nextAbove, next)) :
    ∃ entries, here = .folder entries ∧ Steps above entries part nextAbove next := by
  unfold step at h
  cases here with
  | file => cases h
  | folder entries =>
    refine ⟨entries, rfl, ?_⟩
    dsimp only at h
    split at h
    · rename_i hidle
      cases h
      exact .idle (by simpa using hidle)
    rename_i hidle
    obtain ⟨hempty, hdot⟩ : part ≠ "" ∧ part ≠ "." := by simpa using hidle
    split at h
    · rename_i hdots
      subst hdots
      split at h
      · cases h
        exact .top rfl
      · cases h
        exact .up rfl
    rename_i hdots
    split at h
    · cases h
    rename_i hlength
    split at h
    · rename_i hentry
      cases h
      exact .down ⟨hempty, hdot, hdots, Nat.not_lt.mp hlength⟩ hentry
    · cases h

/-- A name leads to the entry of this name, whatever directories lie above. -/
theorem follow_name (hname : Nameable name) (hentry : entries.lookup name = some found) :
    follow above (.folder entries) [name] = .ok found :=
  follow_cons_eq_ok_iff.mpr ⟨_, _, (Steps.down hname hentry).step, rfl⟩

/-- A directory has entries. -/
theorem exists_of_isFolder (h : here.isFolder = true) : ∃ entries, here = .folder entries := by
  cases here with
  | file => cases h
  | folder entries => exact ⟨entries, rfl⟩

/-- Whatever leads to a directory passes directories only, since no step leads from a file. -/
theorem isFolder_of_follow (hfollow : follow above here parts = .ok found)
    (hfound : found.isFolder = true) : here.isFolder = true := by
  cases parts with
  | nil =>
    cases hfollow
    exact hfound
  | cons part parts =>
    cases here with
    | file => cases hfollow
    | folder => rfl

/-- A path goes on from where its front leads, whatever was passed on the way there. -/
theorem follow_concat {middle : Entry} (hfront : follow above here parts = .ok middle)
    (hlast : ∀ above', follow above' middle [part] = .ok found) :
    follow above here (parts ++ [part]) = .ok found := by
  induction parts generalizing above here with
  | nil =>
    cases hfront
    exact hlast above
  | cons first parts ih =>
    obtain ⟨nextAbove, next, hstep, hrest⟩ := follow_cons_eq_ok_iff.mp hfront
    exact follow_cons_eq_ok_iff.mpr ⟨nextAbove, next, hstep, ih hrest⟩

/-! ## Where a walk stands -/

/-- Where a part of a path leads from a place, as names from the root. Writing goes by these names,
and reading by the directories that were passed. -/
def moved (names : List String) (part : String) : List String :=
  if part = "" || part = "." then names
  else if part = ".." then names.dropLast
  else names ++ [part]

/-- The empty part and a single dot lead nowhere. -/
theorem moved_idle (h : part = "" ∨ part = ".") : moved names part = names :=
  if_pos (by simpa using h)

/-- A name leads one further down. -/
theorem moved_name (h : Nameable name) : moved names name = names ++ [name] := by
  unfold moved
  rw [if_neg (by simp [h.ne_empty, h.ne_dot]), if_neg h.ne_dots]

/-- The walk stands at these names: it came from the root through the directories above. This is the
invariant that ties reading to writing. -/
inductive Stands (root : Entry) : List String → List Entry → Entry → Prop where
  | start : Stands root [] [] root
  | down {names : List String} {above : List Entry} {entries : List (String × Entry)}
      {name : String} {entry : Entry} (h : Stands root names above (.folder entries))
      (hentry : entries.lookup name = some entry) :
    Stands root (names ++ [name]) (.folder entries :: above) entry

/-- Where the walk stands, its names lead. -/
theorem Stands.at? (h : Stands root names above here) : root.at? names = some here := by
  induction h with
  | start => rfl
  | @down names above entries name entry _ hentry ih =>
    rw [Entry.at?_append, ih, Option.bind_some, Entry.at?, hentry]
    rfl

/-- One name further is an entry of the directory it stands at. -/
theorem Stands.at?_concat (h : Stands root names above (.folder entries)) (name : String) :
    root.at? (names ++ [name]) = entries.lookup name := by
  rw [Entry.at?_append, h.at?, Option.bind_some, Entry.at?]
  cases entries.lookup name <;> rfl

/-- Up one directory the walk stands at the names without the last, and what it came through is a
directory. -/
theorem Stands.up {up : Entry} (h : Stands root names (up :: above) here) :
    Stands root names.dropLast above up ∧ up.isFolder = true := by
  cases h with
  | down h hentry =>
    rw [List.dropLast_concat]
    exact ⟨h, rfl⟩

/-- Each step takes the walk where the names say. One case for each way to go on. -/
theorem Stands.step (h : Stands root names above here)
    (hstep : step above here part = .ok (nextAbove, next)) :
    Stands root (moved names part) nextAbove next := by
  obtain ⟨entries, rfl, hsteps⟩ := exists_steps hstep
  cases hsteps with
  | idle hidle =>
    rw [moved_idle hidle]
    exact h
  | top htop =>
    subst htop
    cases h
    exact .start
  | up hup =>
    subst hup
    exact h.up.1
  | down hname hentry =>
    rw [moved_name hname]
    exact h.down hentry

/-- So does a whole path, by induction on its parts. -/
theorem Stands.follow (h : Stands root names above here)
    (hfollow : follow above here parts = .ok found) :
    ∃ above', Stands root (parts.foldl moved names) above' found := by
  induction parts generalizing names above here with
  | nil =>
    cases hfollow
    exact ⟨above, h⟩
  | cons part parts ih =>
    obtain ⟨nextAbove, next, hstep, hrest⟩ := follow_cons_eq_ok_iff.mp hfollow
    exact ih (h.step hstep) hrest

/-! ## The same walk in another tree -/

/-- What is a directory in one tree is one in the other, with any entries. -/
def KeepsFolders (root root' : Entry) : Prop :=
  ∀ names entries, root.at? names = some (.folder entries) →
    ∃ entries', root'.at? names = some (.folder entries')

/-- A step from a directory to a directory can be made in the other tree too. Down, because the
names that were reached lead to a directory there; up, because the other walk came through
directories as well. -/
theorem exists_step (hkeeps : KeepsFolders root root') (h : Stands root names above here)
    (h' : Stands root' names above' here') (hhere' : here'.isFolder = true)
    (hstep : step above here part = .ok (nextAbove, next)) (hnext : next.isFolder = true) :
    ∃ nextAbove' next', step above' here' part = .ok (nextAbove', next') ∧
      next'.isFolder = true := by
  obtain ⟨entries, rfl, hsteps⟩ := exists_steps hstep
  cases here' with
  | file => cases hhere'
  | folder entries' =>
    cases hsteps with
    | idle hidle => exact ⟨_, _, (Steps.idle hidle).step, rfl⟩
    | top _ | up _ =>
      cases above' with
      | nil => exact ⟨_, _, (Steps.top rfl).step, rfl⟩
      | cons up above' => exact ⟨_, _, (Steps.up rfl).step, h'.up.2⟩
    | down hname hentry =>
      cases next with
      | file => cases hnext
      | folder inner =>
        -- The directory that was found is one in the other tree, under the same name.
        obtain ⟨inner', hinner'⟩ := hkeeps _ _ (h.down hentry).at?
        rw [h'.at?_concat] at hinner'
        exact ⟨_, _, (Steps.down hname hinner').step, rfl⟩

/-- A walk that ends at a directory can be made in the other tree too, by induction on its parts. -/
theorem exists_follow (hkeeps : KeepsFolders root root') (h : Stands root names above here)
    (h' : Stands root' names above' here') (hhere' : here'.isFolder = true)
    (hfollow : follow above here parts = .ok found) (hfound : found.isFolder = true) :
    ∃ found', follow above' here' parts = .ok found' ∧ found'.isFolder = true := by
  induction parts generalizing names above here above' here' with
  | nil => exact ⟨here', rfl, hhere'⟩
  | cons part parts ih =>
    obtain ⟨nextAbove, next, hstep, hrest⟩ := follow_cons_eq_ok_iff.mp hfollow
    obtain ⟨nextAbove', next', hstep', hnext'⟩ :=
      exists_step hkeeps h h' hhere' hstep (isFolder_of_follow hrest hfound)
    obtain ⟨found', hrest', hfound'⟩ := ih (h.step hstep) (h'.step hstep') hnext' hrest
    exact ⟨found', follow_cons_eq_ok_iff.mpr ⟨nextAbove', next', hstep', hrest'⟩, hfound'⟩

/-! ## Writing -/

variable {files files' : Files} {path text : String} {bytes : ByteArray}

/-- What succeeds has succeeded up to every point. -/
theorem exists_of_bind {ε α β : Type} {result : Except ε α} {next : α → Except ε β} {value : β}
    (h : (result >>= next) = .ok value) :
    ∃ middle, result = .ok middle ∧ next middle = .ok value := by
  cases result with
  | error => cases h
  | ok middle => exact ⟨middle, rfl, h⟩

/-- A place with a name is that name in the directory that the parts before it lead to. The path
does not end in a slash, and its last part is not made of dots. -/
theorem exists_of_place {place : Place} (h : files.place path = .ok place)
    (hname : place.name = some name) (hfolder : place.asFolder = false) :
    refusal? path = none ∧ (name ≠ "" ∧ name ≠ "." ∧ name ≠ "..") ∧ ∃ dirs,
      files.partsFromRoot path = dirs ++ [name] ∧
      follow [] files.root dirs = .ok (.folder place.entries) := by
  unfold Files.place at h
  cases hrefusal : refusal? path with
  | some cause =>
    rw [hrefusal] at h
    cases h
  | none =>
    rw [hrefusal] at h
    obtain ⟨found, hfollow, h⟩ := exists_of_bind h
    cases found with
    | file => cases h
    | folder entries =>
      cases h
      dsimp only at hname hfolder ⊢
      cases hbackwards : (files.partsFromRoot path).reverse with
      | nil =>
        rw [hbackwards] at hname
        cases hname
      | cons last above =>
        rw [hbackwards] at hname hfolder hfollow
        -- A path that ends in a slash would ask for a directory.
        have hlast : ¬ (last == "") = true := by
          intro hempty
          rw [eq_of_beq hempty] at hfolder
          cases hfolder
        have hwhole : (last :: above).dropWhile (· == "") = last :: above :=
          List.dropWhile_cons_of_neg hlast
        rw [hwhole] at hname hfollow
        split at hname
        · cases hname
        · rename_i hplain
          cases hname
          simp only [Bool.or_eq_true, decide_eq_true_eq, not_or] at hplain
          obtain ⟨⟨hempty, hdot⟩, hdots⟩ := hplain
          exact ⟨rfl, ⟨hempty, hdot, hdots⟩, above.reverse,
            List.reverse_eq_cons_iff.mp hbackwards, hfollow⟩

/-- What must hold for a file to be written: the directories that lead to it exist, and no
directory has its name. -/
theorem exists_of_writeBytes (h : files.writeBytes path bytes = .ok files') :
    refusal? path = none ∧ files' = files.putFile path bytes ∧ ∃ dirs name entries,
      files.partsFromRoot path = dirs ++ [name] ∧ Nameable name ∧
      follow [] files.root dirs = .ok (.folder entries) ∧
      ∀ inner, entries.lookup name ≠ some (.folder inner) := by
  obtain ⟨place, hplace, h⟩ := exists_of_bind h
  split at h
  · cases h
  rename_i name hname
  split at h
  · cases h
  rename_i hfolder
  split at h
  · cases h
  rename_i hlength
  obtain ⟨hrefusal, ⟨hempty, hdot, hdots⟩, dirs, hparts, hdirs⟩ :=
    exists_of_place hplace hname (Bool.eq_false_iff.mpr hfolder)
  split at h
  · cases h
  rename_i hfree
  cases h
  exact ⟨hrefusal, rfl, dirs, name, place.entries, hparts,
    ⟨hempty, hdot, hdots, Nat.not_lt.mp hlength⟩, hdirs, fun inner hinner => hfree inner hinner⟩

/-- Putting a file where there is no directory leaves every directory one, also those that had to be
passed. -/
theorem keepsFolders_putFile (hfree : ∀ entries, files.root.at? (files.names path) ≠
    some (.folder entries)) : KeepsFolders files.root (files.putFile path bytes).root := by
  intro others inner hothers
  obtain ⟨root', hroot', -⟩ :=
    Entry.exists_update (.file bytes) (files.names path) (some files.root)
  have hkept := Entry.exists_at?_update bytes (files.names path) hfree hroot' hothers
  unfold putFile updateAt
  rw [hroot']
  exact hkept

/-- A file that was put somewhere stands there. -/
theorem at?_putFile (files : Files) (path : String) (bytes : ByteArray) :
    (files.putFile path bytes).root.at? (files.names path) = some (.file bytes) := by
  obtain ⟨root', hroot', hplaced⟩ :=
    Entry.exists_update (.file bytes) (files.names path) (some files.root)
  unfold putFile updateAt
  rw [hroot']
  exact hplaced

/-- **A file that was written is found under its path.** The path leads through the names that
writing went by, so the file is where the same walk ends afterwards. -/
theorem find_of_writeBytes (h : files.writeBytes path bytes = .ok files') :
    files'.find path = .ok (.file bytes) := by
  obtain ⟨hrefusal, rfl, dirs, name, entries, hparts, hname, hdirs, hfree⟩ := exists_of_writeBytes h
  have hnames : files.names path = dirs.foldl moved [] ++ [name] := by
    show (files.partsFromRoot path).foldl moved [] = _
    rw [hparts, List.foldl_append, List.foldl_cons, List.foldl_nil, moved_name hname]
  obtain ⟨above, hstands⟩ := Stands.start.follow hdirs
  have hkeeps : KeepsFolders files.root (files.putFile path bytes).root := by
    refine keepsFolders_putFile fun inner hinner => ?_
    rw [hnames, hstands.at?_concat] at hinner
    exact hfree inner hinner
  -- The way to the file is open as before, and at its end stands the file.
  obtain ⟨inner, hroot⟩ := exists_of_isFolder (isFolder_of_follow hdirs rfl)
  obtain ⟨inner', hroot'⟩ := hkeeps [] inner (congrArg some hroot)
  have hfolder : (files.putFile path bytes).root.isFolder = true :=
    congrArg Entry.isFolder (Option.some.inj hroot')
  obtain ⟨found', hfollow', hfound'⟩ := exists_follow hkeeps .start .start hfolder hdirs rfl
  obtain ⟨entries', rfl⟩ := exists_of_isFolder hfound'
  obtain ⟨above', hstands'⟩ := Stands.start.follow hfollow'
  have hplaced := at?_putFile files path bytes
  rw [hnames, hstands'.at?_concat] at hplaced
  unfold find
  rw [hrefusal]
  show follow [] (files.putFile path bytes).root (files.partsFromRoot path) = _
  rw [hparts]
  exact follow_concat hfollow' fun above' => follow_name hname hplaced

/-- **A text that was written is read back**: its bytes are found, and they are the text's own. -/
theorem readText_of_writeText (h : files.writeText path text = .ok files') :
    files'.readText path = .ok text := by
  have hfound := find_of_writeBytes h
  unfold readText
  rw [hfound]
  have hread : String.fromUTF8? text.toUTF8 = some text := dif_pos text.isValidUTF8
  dsimp only [bind, Except.bind]
  rw [hread]

end Files

end CommandCompletion
