/-
The table that a document defines section by section.

A section is a header with the assignments that follow it. Carrying it out adds one table to
the one its path leads to, and changes nothing else (`perform_section`); how the path leads
there is the same at the top of a document and below a table that is only implied
(`LeadsTo`). So sections of different names add their tables one after the other.
-/
import CommandCompletion.Toml.Value

set_option autoImplicit false

namespace CommandCompletion

namespace Named

variable {α : Type} {name : String} {entries : List (String × α)}

/-- A name is put behind the entries that do not have it. -/
theorem put_append (h : entries.lookup name = none) (value : α) (rest : List (String × α)) :
    put name value (entries ++ rest) = entries ++ put name value rest := by
  induction entries with
  | nil => rfl
  | cons entry entries ih =>
    obtain ⟨other, old⟩ := entry
    rw [List.lookup_cons] at h
    split at h
    · cases h
    · rename_i hother
      have hne : other ≠ name := fun heq => beq_eq_false_iff_ne.mp hother heq.symm
      rw [List.cons_append, put, if_neg hne, ih h, List.cons_append]

/-- A new name is put at the end. -/
theorem put_of_missing (h : entries.lookup name = none) (value : α) :
    put name value entries = entries ++ [(name, value)] := by
  have hput := put_append h value []
  rw [List.append_nil] at hput
  exact hput

/-- What was put at the end is replaced there, and nothing else changes. -/
theorem put_last (h : entries.lookup name = none) (old value : α) :
    put name value (entries ++ [(name, old)]) = entries ++ [(name, value)] := by
  rw [put_append h, put, if_pos rfl]

/-- What was put at the end is found under its name. -/
theorem lookup_last (h : entries.lookup name = none) (value : α) :
    (entries ++ [(name, value)]).lookup name = some value := by
  rw [List.lookup_append, h, Option.none_or, List.lookup_cons_self]

/-- A name that is no other's is not found. -/
theorem lookup_eq_none_of_not_mem (h : name ∉ entries.map (·.1)) : entries.lookup name = none := by
  refine List.lookup_eq_none_iff.mpr fun entry hentry => bne_iff_ne.mpr ?_
  rintro rfl
  exact h (List.mem_map_of_mem hentry)

end Named

namespace Toml

open Members Named

/-! ## Where a path leads -/

section

variable {change : Origin → Members → Option Members} {keys path : List String} {key : String}
variable {here was : Origin} {members inner : Members} {wrap : Members → Members}

/-- A table that is missing on the way comes to be at the end, implied: a header may lead through it
before it is stated. -/
theorem update?_missing (h : members.lookup key = none) :
    members.update? .implied change (key :: keys) here =
      (update? .implied change keys .implied []).map fun inner =>
        members ++ [(key, .table .implied inner)] := by
  rw [update?, h]
  show (update? .implied change keys .implied []).bind _ = _
  cases update? .implied change keys .implied [] with
  | none => rfl
  | some inner => exact congrArg some (put_of_missing h _)

/-- A table at the end is entered, unless it was written in braces, which closes it. -/
theorem update?_last (h : members.lookup key = none) (hwas : was ≠ .closed) :
    update? .implied change (key :: keys) here (members ++ [(key, .table was inner)]) =
      (update? .implied change keys was inner).map fun inner =>
        members ++ [(key, .table was inner)] := by
  have hopen : ¬ (was = .closed || (Origin.implied = .dotted && was = .stated)) = true := by
    simp [hwas]
  rw [update?, lookup_last h]
  dsimp only
  rw [if_neg hopen]
  show (update? .implied change keys was inner).bind _ = _
  cases update? .implied change keys was inner with
  | none => rfl
  | some changed => exact congrArg some (put_last h _ _)

/-- The path leads to the table `inner`, and what is put in its place gives the members that `wrap`
puts around it. So a change at the end of the path is a change of `inner`, whatever the change is.
-/
def LeadsTo (path : List String) (members : Members) (was : Origin) (inner : Members)
    (wrap : Members → Members) : Prop :=
  ∀ change keys, members.update? .implied change (path ++ keys) .stated =
    (update? .implied change keys was inner).map wrap

/-- No path leads to the table itself. -/
theorem leadsTo_top (members : Members) : LeadsTo [] members .stated members id := by
  intro change keys
  rw [Option.map_id]
  rfl

/-- A new name leads to an empty table that is implied. -/
theorem leadsTo_missing (h : members.lookup key = none) :
    LeadsTo [key] members .implied [] fun inner => members ++ [(key, .table .implied inner)] :=
  fun _ _ => update?_missing h

/-- The name of an implied table at the end leads to that table. -/
theorem leadsTo_last (h : members.lookup key = none) (inner : Members) :
    LeadsTo [key] (members ++ [(key, .table .implied inner)]) .implied inner
      fun inner => members ++ [(key, .table .implied inner)] :=
  fun _ _ => update?_last h Origin.noConfusion

/-! ## Sections -/

/-- A header with assignments to the table that it states, each of one name. -/
def sectionOf (path : List String) (key : String) (entries : Members) : List Statement :=
  .header path key :: entries.map fun (name, value) => .assignment [] name value

/-- Assignments of new names fill the table that was stated last. The induction is on the
assignments that are left; those that were made are in the table. -/
theorem perform_assignments (hwrap : ∀ inner, LeadsTo path (wrap inner) was inner wrap)
    (hkey : inner.lookup key = none) (entries : Members) {done : Members}
    (hnames : ((done ++ entries).map (·.1)).Nodup) :
    (entries.map fun (name, value) => Statement.assignment [] name value).foldlM Draft.perform?
        ⟨wrap (inner ++ [(key, .table .stated done)]), path ++ [key]⟩ =
      some ⟨wrap (inner ++ [(key, .table .stated (done ++ entries))]), path ++ [key]⟩ := by
  induction entries generalizing done with
  | nil =>
    rw [List.append_nil]
    rfl
  | cons entry entries ih =>
    obtain ⟨name, value⟩ := entry
    have hname : done.lookup name = none := by
      refine lookup_eq_none_of_not_mem fun hmem => ?_
      rw [List.map_append] at hnames
      exact (List.nodup_append.mp hnames).2.2 name hmem name List.mem_cons_self rfl
    have hassigned : Members.assign? [] name value done = some (done ++ [(name, value)]) := by
      unfold Members.assign?
      rw [update?, if_neg (by decide), Members.add?, hname]
      exact congrArg some (put_of_missing hname value)
    -- The table that is being filled stands last where the path leads.
    have hmembers := hwrap (inner ++ [(key, .table .stated done)])
      (fun _ => Members.assign? [] name value) [key]
    rw [update?_last hkey Origin.noConfusion, update?, hassigned] at hmembers
    -- From now on the name is among those that are taken.
    have hmore := @ih (done ++ [(name, value)]) (by rw [List.append_assoc]; exact hnames)
    rw [List.append_assoc] at hmore
    rw [List.map_cons, List.foldlM_cons]
    show (Option.bind (Option.bind _ _) _) = _
    dsimp only
    rw [hmembers]
    exact hmore

/-- **A section adds its table**, under a name that is new where it stands: the header states an
empty table, and the assignments fill it. -/
theorem perform_section (hstart : LeadsTo path members was inner wrap)
    (hwrap : ∀ inner, LeadsTo path (wrap inner) was inner wrap) (hkey : inner.lookup key = none)
    {entries : Members} (hnames : (entries.map (·.1)).Nodup) (here : List String) :
    (sectionOf path key entries).foldlM Draft.perform? ⟨members, here⟩ =
      some ⟨wrap (inner ++ [(key, .table .stated entries)]), path ++ [key]⟩ := by
  have hmembers := hstart (fun _ => Members.state? key) []
  -- The name is new, so stating the table does not clash with another.
  have hstated : Members.state? key inner = some (inner ++ [(key, .table .stated [])]) := by
    unfold Members.state?
    rw [hkey]
    exact congrArg some (put_of_missing hkey _)
  rw [List.append_nil, update?, hstated] at hmembers
  rw [sectionOf, List.foldlM_cons]
  show (Option.bind (Option.bind _ _) _) = _
  rw [hmembers]
  exact perform_assignments hwrap hkey entries hnames

/-- Sections of different names add their tables in their order, by induction on the sections. The
tables that were added before do not have the name of the next. -/
theorem perform_sections (hwrap : ∀ inner, LeadsTo path (wrap inner) was inner wrap)
    (sections : List (String × Members))
    (hsections : ∀ entry ∈ sections, (entry.2.map (·.1)).Nodup)
    {inner : Members} (hnames : (inner.map (·.1) ++ sections.map (·.1)).Nodup)
    (here : List String) :
    ∃ here', (sections.flatMap fun (key, entries) => sectionOf path key entries).foldlM
        Draft.perform? ⟨wrap inner, here⟩ =
      some ⟨wrap (inner ++ sections.map fun (key, entries) => (key, .table .stated entries)),
        here'⟩ := by
  induction sections generalizing inner here with
  | nil =>
    refine ⟨here, ?_⟩
    rw [List.map_nil, List.append_nil]
    rfl
  | cons entry sections ih =>
    obtain ⟨key, entries⟩ := entry
    obtain ⟨hentries, hrest⟩ := List.forall_mem_cons.mp hsections
    -- The next name is none of those that stand there already.
    have hkey : inner.lookup key = none := lookup_eq_none_of_not_mem fun hmem =>
      (List.nodup_append.mp hnames).2.2 key hmem key List.mem_cons_self rfl
    have hfirst := perform_section (hwrap inner) hwrap hkey hentries here
    obtain ⟨here', hmore⟩ := @ih hrest (inner ++ [(key, .table .stated entries)]) (by
      rw [List.map_append, List.append_assoc]
      exact hnames) (path ++ [key])
    refine ⟨here', ?_⟩
    rw [List.append_assoc] at hmore
    rw [List.flatMap_cons, List.foldlM_append, hfirst]
    exact hmore

end

end Toml

end CommandCompletion
