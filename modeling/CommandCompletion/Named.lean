/-
Lists of named values, in the order in which the names first came, and fields
that may be missing from one.
-/

set_option autoImplicit false

namespace CommandCompletion.Named

variable {α : Type}

/-- Puts a value under a name. A name that is there keeps its place, a new one comes last. -/
def put (name : String) (value : α) : List (String × α) → List (String × α)
  | [] => [(name, value)]
  | (other, old) :: rest =>
    if other = name then (name, value) :: rest else (other, old) :: put name value rest

/-- What was put under a name is found there, and nothing else has changed. -/
theorem lookup_put (name other : String) (value : α) (entries : List (String × α)) :
    (put name value entries).lookup other =
      if other = name then some value else entries.lookup other := by
  induction entries with
  | nil => by_cases h : other = name <;> simp [put, List.lookup_cons, h, beq_eq_false_iff_ne.mpr]
  | cons entry rest ih =>
    obtain ⟨key, old⟩ := entry
    by_cases hk : key = name
    · subst hk
      by_cases h : other = key <;> simp [put, List.lookup_cons, h, beq_eq_false_iff_ne.mpr]
    · by_cases h : other = key
      · subst h
        simp [put, hk]
      · simp only [put, hk, if_false, List.lookup_cons, beq_eq_false_iff_ne.mpr h]
        exact ih

/-- A field that may be missing, in which case `default` stands for it. -/
def defaulting {β : Type} (default : β) (decode : α → Option β) : Option α → Option β
  | none => some default
  | some value => decode value

end CommandCompletion.Named
