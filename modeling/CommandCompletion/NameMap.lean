/-
Maps from names, kept in the order of the names.

Names are compared character by character, which is also the order of their
UTF-8 bytes. The order is part of the type, so two maps with the same entries are
equal whatever they were made from.
-/

set_option autoImplicit false

namespace CommandCompletion

/-- A map from names to values of `α`, each name with one value. -/
@[ext]
structure NameMap (α : Type) where
  entries : List (String × α)
  ordered : entries.Pairwise (fun a b => a.1 < b.1)

namespace NameMap

variable {α : Type}

instance : Inhabited (NameMap α) := ⟨⟨[], .nil⟩⟩

instance : EmptyCollection (NameMap α) := ⟨⟨[], .nil⟩⟩

instance [DecidableEq α] : DecidableEq (NameMap α) := fun a b =>
  decidable_of_iff (a.entries = b.entries) NameMap.ext_iff.symm

instance [Repr α] : Repr (NameMap α) := ⟨fun map => reprPrec map.entries⟩

/-- The entries with a value under a name, the old one replaced. The place is found from the front,
as all names before it are smaller. -/
def insertEntry (name : String) (value : α) : List (String × α) → List (String × α)
  | [] => [(name, value)]
  | (other, old) :: rest =>
    if name < other then (name, value) :: (other, old) :: rest
    else if name = other then (name, value) :: rest
    else (other, old) :: insertEntry name value rest

/-- Nothing but the new name is added, so what held of all other entries still does. -/
theorem mem_insertEntry {name : String} {value : α} {entries : List (String × α)}
    {entry : String × α} (h : entry ∈ insertEntry name value entries) :
    entry = (name, value) ∨ entry ∈ entries := by
  induction entries with
  | nil => exact Or.inl (List.mem_singleton.1 h)
  | cons head rest ih =>
    obtain ⟨other, old⟩ := head
    simp only [insertEntry] at h
    split at h
    · exact List.mem_cons.1 h
    · split at h
      · exact (List.mem_cons.1 h).imp_right (List.mem_cons_of_mem _)
      · rcases List.mem_cons.1 h with h | h
        · exact Or.inr (h ▸ List.mem_cons_self)
        · exact (ih h).imp_right (List.mem_cons_of_mem _)

/-- Putting a value in keeps the order. The induction follows `insertEntry`, with one case for each
place that the name can have. -/
theorem insertEntry_ordered (name : String) (value : α) (entries : List (String × α))
    (h : entries.Pairwise (fun a b => a.1 < b.1)) :
    (insertEntry name value entries).Pairwise (fun a b => a.1 < b.1) := by
  induction entries with
  | nil => exact List.pairwise_singleton _ _
  | cons head rest ih =>
    obtain ⟨other, old⟩ := head
    obtain ⟨above, below⟩ := List.pairwise_cons.1 h
    simp only [insertEntry]
    split
    · rename_i less
      refine List.pairwise_cons.2 ⟨fun entry mem => ?_, h⟩
      rcases List.mem_cons.1 mem with rfl | mem
      · exact less
      · exact String.lt_trans less (above entry mem)
    · split
      · rename_i same
        exact List.pairwise_cons.2 ⟨fun entry mem => same ▸ above entry mem, below⟩
      · rename_i notLess notSame
        refine List.pairwise_cons.2 ⟨fun entry mem => ?_, ih below⟩
        rcases mem_insertEntry mem with rfl | mem
        · exact Std.not_le.1 fun le => notSame (Std.le_antisymm le (Std.not_lt.1 notLess))
        · exact above entry mem

/-- The map with a value under a name, whatever was there before. -/
def insert (name : String) (value : α) (map : NameMap α) : NameMap α :=
  ⟨insertEntry name value map.entries, insertEntry_ordered name value map.entries map.ordered⟩

/-- The map of these entries; of two with one name the later counts. -/
def ofList (entries : List (String × α)) : NameMap α :=
  entries.foldl (fun map (name, value) => map.insert name value) ∅

end NameMap

end CommandCompletion
