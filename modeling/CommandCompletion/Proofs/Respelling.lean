/-
The many spellings of a grammar document.

`Respelled` relates two values that spell the same part of a document: the members of
an object in another order, members that nobody asks for, null for a field that is
missing, a single text or argument outside of its list, a suggestion that is only a
name; and all of this anywhere inside. Each of these steps leaves what is read as it is
(`Respelled.same`), so any number of them does.

That a respelled document is read alike does not mean that it is accepted. A list around
a name is one level more, and a member that is passed over must still be sound if it
stands where values are held back. Within the limits (`NodeWithin`) a respelled document
is accepted, and outside of them it is not (`ofText_respelled`).
-/
import CommandCompletion.Proofs.RecordFields

set_option autoImplicit false

namespace CommandCompletion.Document

open CommandCompletion.Json

/-! ## Spellings -/

/-- The two values spell the same where this is expected (specification, § E2.1). Each case but the
first three is one step that an author may make, in either direction; any number of them may follow
each other. -/
inductive Respelled : Place → Value → Value → Prop where
  | refl (place : Place) (value : Value) : Respelled place value value
  | symm {place : Place} {value value' : Value} (h : Respelled place value value') :
      Respelled place value' value
  | trans {place : Place} {value middle value' : Value} (h : Respelled place value middle)
      (h' : Respelled place middle value') : Respelled place value value'
  /-- The members of an object in another order. -/
  | reordered {kind : Record} {members members' : List (Option String × Value)}
      (h : members.Perm members') : Respelled (.record kind) (.object members) (.object members')
  /-- A member that the record does not know. -/
  | unknown {kind : Record} {key : String} (hkey : key ∉ kind.names) (value : Value)
      (members : List (Option String × Value)) :
      Respelled (.record kind) (.object members) (.object ((some key, value) :: members))
  /-- Null for a field that is missing. -/
  | null {kind : Record} {name : String} {members : List (Option String × Value)}
      (hname : name ∈ kind.omittable) (hmissing : ∀ member ∈ members, member.1 ≠ some name) :
      Respelled (.record kind) (.object members) (.object ((some name, .null) :: members))
  /-- A field that is spelled differently; reordering brings any field to the front. -/
  | member {kind : Record} {name : String} {value value' : Value}
      (h : Respelled (kind.place name) value value') (members : List (Option String × Value)) :
      Respelled (.record kind) (.object ((some name, value) :: members))
        (.object ((some name, value') :: members))
  /-- In a record written as an array, the field at a position. -/
  | position {kind : Record} {name : String} {before after : List Value} {value value' : Value}
      (hkind : kind ≠ .loader) (hname : kind.names[before.length]? = some name)
      (h : Respelled (kind.place name) value value') :
      Respelled (.record kind) (.array (before ++ value :: after))
        (.array (before ++ value' :: after))
  /-- In a record written as an array, null for the first field that is missing. -/
  | nullAtEnd {kind : Record} {name : String} {items : List Value}
      (hname : kind.names[items.length]? = some name) (homittable : name ∈ kind.omittable) :
      Respelled (.record kind) (.array items) (.array (items ++ [.null]))
  /-- In a loader written as an array, the command that it carries. -/
  | fragment {tag value value' : Value} {items : List Value}
      (htag : loaderKind? true tag = some .inline) (h : Respelled (.record .command) value value') :
      Respelled (.record .loader) (.array (tag :: value :: items)) (.array (tag :: value' :: items))
  /-- A suggestion that is only a name. -/
  | described (text : Option String) :
      Respelled (.record .choice) (.string text) (.object [(some "name", .string text)])
  /-- An item of a list. -/
  | item {kind : Record} {before after : List Value} {value value' : Value}
      (h : Respelled (.record kind) value value') :
      Respelled (.list kind) (.array (before ++ value :: after))
        (.array (before ++ value' :: after))
  /-- A list of one text. -/
  | oneText (text : Option String) : Respelled .texts (.string text) (.array [.string text])
  /-- A list of one argument. -/
  | oneSlot (members : List (Option String × Value)) :
      Respelled .slots (.object members) (.array [.object members])
  /-- A single argument. -/
  | slot {members members' : List (Option String × Value)}
      (h : Respelled (.record .slot) (.object members) (.object members')) :
      Respelled .slots (.object members) (.object members')
  /-- A single argument written as an array: it begins with a name. -/
  | slotArray {first first' : Value} {items items' : List Value}
      (hfirst : first.isContainer = false) (hfirst' : first'.isContainer = false)
      (h : Respelled (.record .slot) (.array (first :: items)) (.array (first' :: items'))) :
      Respelled .slots (.array (first :: items)) (.array (first' :: items'))
  /-- One of several arguments. -/
  | slotItem {before after : List Value} {value value' : Value}
      (hitems : ∀ item ∈ before ++ value :: value' :: after, item.isContainer = true)
      (h : Respelled (.record .slot) value value') :
      Respelled .slots (.array (before ++ value :: after)) (.array (before ++ value' :: after))

/-! ## Members -/

section Members

variable {kind : Record} {members members' : List (Option String × Value)}
variable {key name : String} {value value' : Value}

/-- How often a name occurs is counted member by member. -/
theorem occurrences_cons (member : Option String × Value)
    (members : List (Option String × Value)) : occurrences (member :: members) name =
      occurrences members name + if member.1 = some name then 1 else 0 := by
  unfold occurrences
  rw [List.countP_cons]
  simp only [beq_iff_eq]

/-- A name is looked up member by member, and the first that has it counts. -/
theorem lookup_cons (member : Option String × Value) (members : List (Option String × Value)) :
    lookup (member :: members) name =
      if member.1 = some name then some member.2 else lookup members name := by
  let named (member : Option String × Value) : Bool := member.1 == some name
  show ((member :: members).find? named).map Prod.snd = _
  by_cases hkey : member.1 = some name
  · have hnamed : named member = true := beq_iff_eq.mpr hkey
    rw [List.find?_cons_of_pos hnamed, if_pos hkey]
    rfl
  · have hnamed : ¬ named member = true := fun hcontra => hkey (beq_iff_eq.mp hcontra)
    rw [List.find?_cons_of_neg hnamed, if_neg hkey]
    rfl

/-- How often a name occurs does not depend on the order. -/
theorem occurrences_of_perm (h : members.Perm members') :
    occurrences members name = occurrences members' name :=
  h.countP_eq _

/-- Where a name occurs at most once, it does not matter where it stands. By induction on the moves;
that it occurs once is known of every list on the way. -/
theorem lookup_of_perm (h : members.Perm members') (honce : occurrences members name ≤ 1) :
    lookup members name = lookup members' name := by
  induction h with
  | nil => rfl
  | cons member h ih =>
    rw [occurrences_cons] at honce
    rw [lookup_cons, lookup_cons, ih (Nat.le_trans (Nat.le_add_right _ _) honce)]
  | swap first second members =>
    rw [occurrences_cons, occurrences_cons] at honce
    rw [lookup_cons, lookup_cons, lookup_cons, lookup_cons]
    -- Of two members that change places, only one can have the name.
    by_cases hfirst : first.1 = some name
    · by_cases hsecond : second.1 = some name
      · rw [if_pos hfirst, if_pos hsecond] at honce
        omega
      · rw [if_neg hsecond, if_neg hsecond]
    · rw [if_neg hfirst, if_neg hfirst]
  | trans h h' ih ih' => rw [ih honce, ih' (occurrences_of_perm h ▸ honce)]

/-- Members in another order are alike, since none of the names that count is there twice. -/
theorem membersAlike_of_perm (h : members.Perm members') : MembersAlike kind members members' where
  keys := h.all_eq
  once := fun name _ => by rw [occurrences_of_perm h]
  field := fun name _ honce => lookup_of_perm h honce ▸ .same _

/-- With a member more that the record does not know they are alike: none of its names is looked up
there. -/
theorem membersAlike_unknown (hkey : key ∉ kind.names) (value : Value)
    (members : List (Option String × Value)) :
    MembersAlike kind members ((some key, value) :: members) := by
  have hother : ∀ name ∈ kind.names, some key ≠ some name :=
    fun name hname heq => hkey (Option.some.inj heq ▸ hname)
  exact {
    keys := rfl
    once := fun name hname => by
      rw [occurrences_cons, if_neg (hother name hname), Nat.add_zero]
    field := fun name hname _ => by
      rw [lookup_cons, if_neg (hother name hname)]
      exact .same _ }

/-- With null for a field that is missing they are, if the field may be omitted. -/
theorem membersAlike_null (hname : name ∈ kind.omittable)
    (hmissing : ∀ member ∈ members, member.1 ≠ some name) :
    MembersAlike kind members ((some name, .null) :: members) := by
  have hnone : occurrences members name = 0 := List.countP_eq_zero.mpr fun member hmem hkey =>
    hmissing member hmem (beq_iff_eq.mp hkey)
  have hlookup : lookup members name = none := by
    unfold lookup
    rw [Option.map_eq_none_iff, List.find?_eq_none]
    exact fun member hmem hkey => hmissing member hmem (beq_iff_eq.mp hkey)
  -- Of the name itself there is one then and none before; the others are as they were.
  refine ⟨rfl, fun other _ => ?_, fun other _ _ => ?_⟩
  · rw [occurrences_cons]
    by_cases hother : some name = some other
    · rw [if_pos hother, ← Option.some.inj hother, hnone]
      decide
    · rw [if_neg hother, Nat.add_zero]
  · rw [lookup_cons]
    by_cases hother : some name = some other
    · rw [if_pos hother, ← Option.some.inj hother, hlookup]
      exact .omitted hname
    · rw [if_neg hother]
      exact .same _

/-- With another spelling of one member they are, if it is null in both or in neither. -/
theorem membersAlike_member (hnull : value = .null ↔ value' = .null)
    (hsame : (kind.place name).Same value value') (members : List (Option String × Value)) :
    MembersAlike kind ((some name, value) :: members) ((some name, value') :: members) := by
  refine ⟨rfl, fun other _ => by rw [occurrences_cons, occurrences_cons], fun other _ _ => ?_⟩
  rw [lookup_cons, lookup_cons]
  by_cases hother : some name = some other
  · rw [if_pos hother, if_pos hother]
    exact .held hnull (Option.some.inj hother ▸ hsame)
  · rw [if_neg hother, if_neg hother]
    exact .same _

end Members

/-! ## Positions -/

section Positions

variable {kind : Record} {name : String} {before after items : List Value} {value value' : Value}

/-- An array is a record if it has no more items than there are fields. -/
theorem fields?_array (names : List String) (items : List Value) : fields? names (.array items) =
    if items.length ≤ names.length then some fun name => (names.zip items).lookup name else none :=
  rfl

/-- What stands at a position is found under the name for it, unless the name was found in front of
it. -/
theorem lookup_zip_append {front back : List String} (hlength : front.length = before.length)
    (other : String) : ((front ++ name :: back).zip (before ++ value :: after)).lookup other =
      ((front.zip before).lookup other).or
        (if other = name then some value else (back.zip after).lookup other) := by
  rw [List.zip_append hlength, List.lookup_append, List.zip_cons_cons, List.lookup_cons]
  by_cases hother : other = name
  · rw [if_pos hother, beq_iff_eq.mpr hother]
  · rw [if_neg hother, beq_eq_false_iff_ne.mpr hother]

/-- The names before a position are as many as the items before it. -/
theorem exists_around {names : List String} {n : Nat} (h : names[n]? = some name) :
    ∃ front back, names = front ++ name :: back ∧ front.length = n := by
  obtain ⟨hlt, rfl⟩ := List.getElem?_eq_some_iff.mp h
  refine ⟨names.take n, names.drop (n + 1), ?_, List.length_take_of_le (Nat.le_of_lt hlt)⟩
  rw [List.getElem_cons_drop, List.take_append_drop]

/-- Arrays that differ in one item have fields that are alike, if the item is alike where it stands.
-/
theorem fieldsAlike_position (hname : kind.names[before.length]? = some name)
    (hnull : value = .null ↔ value' = .null) (hsame : (kind.place name).Same value value') :
    FieldsAlike kind (.array (before ++ value :: after)) (.array (before ++ value' :: after)) := by
  obtain ⟨front, back, hnames, hlength⟩ := exists_around hname
  have hlengths : (before ++ value' :: after).length = (before ++ value :: after).length := by
    rw [List.length_append, List.length_append, List.length_cons, List.length_cons]
  have halike : ∀ other, FieldAlike kind other
      ((kind.names.zip (before ++ value :: after)).lookup other)
      ((kind.names.zip (before ++ value' :: after)).lookup other) := by
    intro other
    rw [hnames, lookup_zip_append hlength, lookup_zip_append hlength]
    -- A field in front of the position hides what stands at it.
    cases (front.zip before).lookup other with
    | some found => exact .same _
    | none =>
      rw [Option.none_or, Option.none_or]
      by_cases hother : other = name
      · rw [if_pos hother, if_pos hother]
        exact .held hnull (hother ▸ hsame)
      · rw [if_neg hother, if_neg hother]
        exact .same _
  by_cases hfits : (before ++ value :: after).length ≤ kind.names.length
  · exact .both ((fields?_array _ _).trans (if_pos hfits))
      ((fields?_array _ _).trans (if_pos (hlengths ▸ hfits))) fun other _ => halike other
  · exact .neither ((fields?_array _ _).trans (if_neg hfits))
      ((fields?_array _ _).trans (if_neg (hlengths ▸ hfits)))

/-- So have an array and the same with null behind it, if that stands for a field that may be
omitted. -/
theorem fieldsAlike_nullAtEnd (hname : kind.names[items.length]? = some name)
    (homittable : name ∈ kind.omittable) :
    FieldsAlike kind (.array items) (.array (items ++ [.null])) := by
  obtain ⟨front, back, hnames, hlength⟩ := exists_around hname
  have hlt := (List.getElem?_eq_some_iff.mp hname).1
  have hshort : kind.names.zip items = front.zip items := by
    rw [← List.append_nil items, hnames, List.zip_append hlength, List.zip_nil_right,
      List.append_nil, List.append_nil]
  refine .both ((fields?_array _ _).trans (if_pos (Nat.le_of_lt hlt)))
    ((fields?_array _ _).trans (if_pos ?_)) fun other _ => ?_
  · rw [List.length_append]
    exact hlt
  · show FieldAlike kind other ((kind.names.zip items).lookup other) _
    rw [hshort, hnames, lookup_zip_append hlength]
    cases (front.zip items).lookup other with
    | some found => exact .same _
    | none =>
      rw [Option.none_or, List.zip_nil_right]
      by_cases hother : other = name
      · rw [if_pos hother]
        exact .omitted (hother ▸ homittable)
      · rw [if_neg hother]
        exact .same _

end Positions

/-! ## Lists -/

section Lists

variable {before after items : List Value} {value value' : Value}

/-- What is neither an array nor an object is no argument. -/
theorem decodeSlot_of_scalar (hvalue : value.isContainer = false) : decodeSlot value = none := by
  cases value with
  | array items => cases hvalue
  | object members => cases hvalue
  | _ => rfl

/-- An array that begins with an argument is not itself an argument, whose first field is a text. So
one and several can be told apart. -/
theorem decodeSlot_of_container (hvalue : value.isContainer = true) (items : List Value) :
    decodeSlot (.array (value :: items)) = none := by
  have hname : optional Value.text? ((Record.slot.names.zip (value :: items)).lookup "name") =
      none := by
    show optional Value.text? (some value) = none
    cases value with
    | array items => rfl
    | object members => rfl
    | _ => cases hvalue
  rw [decodeSlot_eq]
  unfold readSlot
  rw [fields?_array]
  split
  · simp only [Option.bind_eq_bind, Option.bind_some, hname, Option.bind_none,
      Option.bind_fun_none]
  · rfl

/-- Arrays and objects are read one by one, as several arguments. -/
theorem slots_of_containers (hne : items ≠ []) (hitems : ∀ item ∈ items, item.isContainer = true) :
    oneOrMany decodeSlot (.array items) = items.mapM decodeSlot := by
  cases items with
  | nil => exact absurd rfl hne
  | cons item items =>
    have hsingle := decodeSlot_of_container (hitems item List.mem_cons_self) items
    show ((item :: items).mapM decodeSlot <|> (decodeSlot (.array (item :: items))).map _) = _
    rw [hsingle]
    cases (item :: items).mapM decodeSlot <;> rfl

/-- What begins with a text is a single argument. -/
theorem slots_of_scalar (hvalue : value.isContainer = false) (items : List Value) :
    oneOrMany decodeSlot (.array (value :: items)) =
      (decodeSlot (.array (value :: items))).map fun slot => [slot] := by
  have hseveral : (value :: items).mapM decodeSlot = none := by
    rw [List.mapM_cons, decodeSlot_of_scalar hvalue]
    rfl
  show ((value :: items).mapM decodeSlot <|> _) = _
  rw [hseveral]
  rfl

/-- An argument alone is read as a list of one. -/
theorem slots_oneSlot (members : List (Option String × Value)) :
    oneOrMany decodeSlot (.object members) = oneOrMany decodeSlot (.array [.object members]) := by
  rw [slots_of_containers (List.cons_ne_nil _ _) (List.forall_mem_singleton.mpr rfl)]
  show (none <|> (decodeSlot (.object members)).map fun slot => [slot]) = _
  rw [List.mapM_cons]
  cases decodeSlot (.object members) <;> rfl

/-- A single argument written as an array is read alike if it is alike as an argument. -/
theorem slots_array {items' : List Value} (hvalue : value.isContainer = false)
    (hvalue' : value'.isContainer = false)
    (h : decodeSlot (.array (value :: items)) = decodeSlot (.array (value' :: items'))) :
    oneOrMany decodeSlot (.array (value :: items)) =
      oneOrMany decodeSlot (.array (value' :: items')) := by
  rw [slots_of_scalar hvalue, slots_of_scalar hvalue', h]

/-- One of several arguments may be spelled differently, if neither spelling makes the whole a
single one. -/
theorem slots_item (hitems : ∀ item ∈ before ++ value :: value' :: after, item.isContainer = true)
    (h : decodeSlot value = decodeSlot value') :
    oneOrMany decodeSlot (.array (before ++ value :: after)) =
      oneOrMany decodeSlot (.array (before ++ value' :: after)) := by
  obtain ⟨hbefore, hrest⟩ := List.forall_mem_append.mp hitems
  obtain ⟨hvalue, hrest⟩ := List.forall_mem_cons.mp hrest
  obtain ⟨hvalue', hafter⟩ := List.forall_mem_cons.mp hrest
  have hlist : ∀ item, item.isContainer = true →
      oneOrMany decodeSlot (.array (before ++ item :: after)) =
        (before ++ item :: after).mapM decodeSlot := fun item hitem =>
    slots_of_containers (List.append_ne_nil_of_right_ne_nil _ (List.cons_ne_nil _ _))
      (List.forall_mem_append.mpr ⟨hbefore, List.forall_mem_cons.mpr ⟨hitem, hafter⟩⟩)
  rw [hlist value hvalue, hlist value' hvalue', List.mapM_append, List.mapM_append,
    List.mapM_cons, List.mapM_cons, h]

/-- A command carried by a loader that is written as an array. The tag says that there is one, and
it is the only item behind the tag. -/
theorem decodeLoader_of_fragment {tag : Value} (htag : loaderKind? true tag = some .inline)
    (items : List Value) (levels : Nat) (held : Bool)
    (h : readNode levels true value = readNode levels true value') :
    decodeLoader held (readNode levels true) (.array (tag :: value :: items)) =
      decodeLoader held (readNode levels true) (.array (tag :: value' :: items)) := by
  have hinline : loaderKind? held tag = none ∨ loaderKind? held tag = some .inline := by
    cases held with
    | true => exact .inr htag
    | false =>
      unfold loaderKind? at htag ⊢
      split at htag <;> simp_all
  rw [decodeLoader_eq, decodeLoader_eq]
  show (loaderKind? held tag).bind _ = (loaderKind? held tag).bind _
  -- A number names a kind only in a value that was held back.
  rcases hinline with hkind | hkind
  · rw [hkind]
    rfl
  rw [hkind, Option.bind_some, Option.bind_some]
  unfold loaderOfKind
  show (fields? ["spec"] (.array (value :: items))).bind _ =
    (fields? ["spec"] (.array (value' :: items))).bind _
  rw [fields?_array, fields?_array]
  by_cases hfits : (value :: items).length ≤ ["spec"].length
  · rw [if_pos hfits, if_pos (show (value' :: items).length ≤ _ from hfits)]
    exact congrArg (Option.map Loader.inline) h
  · rw [if_neg hfits, if_neg (show ¬ (value' :: items).length ≤ _ from hfits)]

end Lists

/-! ## Meaning -/

/-- A respelled part is null only where the other is. Only the first three steps relate null to
anything, and that is null again. -/
theorem Respelled.null_iff {place : Place} {value value' : Value}
    (h : Respelled place value value') : value = .null ↔ value' = .null := by
  induction h with
  | refl => exact Iff.rfl
  | symm _ ih => exact ih.symm
  | trans _ _ ih ih' => exact ih.trans ih'
  | slot _ ih => exact ih
  | slotArray _ _ _ ih => exact ih
  | _ => exact iff_of_false Value.noConfusion Value.noConfusion

/-- **Respelling does not change what is read.** By induction on the steps: for a record it is
enough that its fields are alike, for a list that its items mean the same. -/
theorem Respelled.same {place : Place} {value value' : Value}
    (h : Respelled place value value') : place.Same value value' := by
  induction h with
  | refl place value => exact Eq.refl (place.read value)
  | symm _ ih => exact Eq.symm ih
  | trans _ _ ih ih' => exact Eq.trans ih ih'
  | reordered h => exact read_of_members (membersAlike_of_perm h)
  | unknown hkey value members => exact read_of_members (membersAlike_unknown hkey value members)
  | null hname hmissing => exact read_of_members (membersAlike_null hname hmissing)
  | member h members ih => exact read_of_members (membersAlike_member h.null_iff ih members)
  | position hkind hname h ih =>
    exact read_of_items hkind (fieldsAlike_position hname h.null_iff ih)
  | nullAtEnd hname homittable =>
    refine read_of_items ?_ (fieldsAlike_nullAtEnd hname homittable)
    rintro rfl
    cases homittable
  | fragment htag _ ih =>
    exact funext fun levels => funext fun held =>
      decodeLoader_of_fragment htag _ levels held (congrFun (congrFun ih levels) true)
  | described text => cases text <;> rfl
  | @item kind before after value value' _ ih =>
    show some ((before ++ value :: after).map kind.read) =
      some ((before ++ value' :: after).map kind.read)
    rw [List.map_append, List.map_append, List.map_cons, List.map_cons,
      show kind.read value = kind.read value' from ih]
  | oneText text => cases text <;> rfl
  | oneSlot members => exact slots_oneSlot members
  | slot _ ih => exact congrArg (none <|> Option.map (fun slot => [slot]) ·) ih
  | slotArray hfirst hfirst' _ ih => exact slots_array hfirst hfirst' ih
  | slotItem hitems _ ih => exact slots_item hitems ih

/-! ## Documents -/

variable {key key' text text' : String} {value value' : Value} {grammar : Grammar}

/-- A text that is JSON is accepted if its value is, and turned down with the same message
otherwise. -/
theorem ofText_of_parse (hvalue : Json.parse? text = some value) : ofText key text =
    match ofValue? value with
    | some grammar => .ok grammar
    | none => .error (.grammarMalformed key "not a grammar document") := by
  unfold ofText
  rw [hvalue]
  rfl

/-- So it is accepted as a grammar just where its value is decoded as that grammar. -/
theorem ofText_eq_ok_iff (hvalue : Json.parse? text = some value) :
    ofText key text = .ok grammar ↔ ofValue? value = some grammar := by
  rw [ofText_of_parse hvalue]
  cases ofValue? value with
  | none => exact iff_of_false (fun h => nomatch h) (fun h => nomatch h)
  | some other =>
    exact ⟨fun h => congrArg some (Except.ok.inj h), fun h => congrArg _ (Option.some.inj h)⟩

/-- **A document has many spellings and one meaning** (specification, § E2.1). Whatever spells the
same as an accepted document is accepted as the same grammar, as far as it is within the limits of
the decoder; beyond them it is turned down. What is read is the same by `Respelled.same`, and the
limits are all that is left to ask. -/
theorem ofText_respelled (hvalue : Json.parse? text = some value)
    (hvalue' : Json.parse? text' = some value') (haccepted : ofText key text = .ok grammar)
    (h : Respelled (.record .command) value value') :
    (NodeWithin maxLevels value' → ofText key' text' = .ok grammar) ∧
    (¬ NodeWithin maxLevels value' →
      ofText key' text' = .error (.grammarMalformed key' "not a grammar document")) := by
  have hdecoded : decodeNode maxLevels false value = some grammar :=
    (ofText_eq_ok_iff hvalue).mp haccepted
  have hread : readNode maxLevels false value = some grammar :=
    (decodeNode_eq_some_iff.mp hdecoded).2
  have hsame : readNode maxLevels false value = readNode maxLevels false value' :=
    congrFun (congrFun h.same maxLevels) false
  constructor
  · intro hwithin
    exact (ofText_eq_ok_iff hvalue').mpr (decodeNode_eq_some_iff.mpr ⟨hwithin, hsame ▸ hread⟩)
  · intro hbeyond
    have hnone : ofValue? value' = none := by
      cases hdecoded' : ofValue? value' with
      | none => rfl
      | some other => exact absurd (decodeNode_eq_some_iff.mp hdecoded').1 hbeyond
    rw [ofText_of_parse hvalue', hnone]

/-! A document, and another spelling of it. -/

/-- `cp` with an argument. -/
def cpText : String := "\x7b\"name\":\"cp\",\"args\":\x7b\"name\":\"from\"\x7d\x7d"

/-- The same with lists, with null, with a note and in another order. -/
def cpRespelled : String :=
  "\x7b\"note\":1,\"priority\":null,\"args\":[\x7b\"name\":\"from\"\x7d],\"name\":[\"cp\"]\x7d"

/-- What the first is. -/
def cpValue : Value :=
  .object [(some "name", .string (some "cp")),
    (some "args", .object [(some "name", .string (some "from"))])]

/-- What the second is. -/
def cpRespelledValue : Value :=
  .object [(some "note", .number "1"), (some "priority", .null),
    (some "args", .array [.object [(some "name", .string (some "from"))]]),
    (some "name", .array [.string (some "cp")])]

/-- The steps from the first to the second: a list of the name, another order, a list of the
argument, null, a note. -/
theorem respelled_cp : Respelled (.record .command) cpValue cpRespelledValue := by
  have hname : Respelled (Record.command.place "name") (.string (some "cp"))
      (.array [.string (some "cp")]) := .oneText _
  have hargs : Respelled (Record.command.place "args")
      (.object [(some "name", .string (some "from"))])
      (.array [.object [(some "name", .string (some "from"))]]) := .oneSlot _
  have hpriority : "priority" ∈ Record.command.omittable := by decide
  have hnote : "note" ∉ Record.command.names := by decide
  refine .trans (.member hname _) ?_
  refine .trans (.reordered (.swap _ _ _)) ?_
  refine .trans (.member hargs _) ?_
  exact .trans (.null hpriority (by decide)) (.unknown hnote _ _)

/-- Both are the same command, whatever keys they are stored under. -/
theorem ofText_cp : ∃ grammar : Grammar, ofText "cp" cpText = .ok grammar ∧
    grammar.names = ["cp"] ∧ ofText "copy" cpRespelled = .ok grammar := by
  have hvalue : Json.parse? cpText = some cpValue := by with_unfolding_all rfl
  have hvalue' : Json.parse? cpRespelled = some cpRespelledValue := by with_unfolding_all rfl
  have haccepted : ofText "cp" cpText =
      .ok { id := (), names := ["cp"], args := [{ name := "from" }] } := by
    rw [ofText_of_parse hvalue]
    rfl
  have hwithin : NodeWithin maxLevels cpRespelledValue := nodeWithin_of_isSound (by decide +kernel)
  exact ⟨_, haccepted, rfl, (ofText_respelled hvalue hvalue' haccepted respelled_cp).1 hwithin⟩

/-! Three ways of respelling that go too far. -/

/-- A command, with a note on its argument that is no number for the decoder. -/
def notedText : String :=
  "\x7b\"args\":\x7b\"note\":1e999,\"name\":\"from\"\x7d,\"name\":\"cp\"\x7d"

/-- The same without the note. -/
def unnotedText : String := "\x7b\"args\":\x7b\"name\":\"from\"\x7d,\"name\":\"cp\"\x7d"

/-- Commands nested in each other, of which the last has a name. -/
def nested (name : Value) : Nat → Value
  | 0 => .object [(some "name", name)]
  | depth + 1 => .object [(some "subcommands", .array [nested name depth])]

/-- However deep the command with a name stands, its name may be a list. -/
theorem respelled_nested (depth : Nat) : Respelled (.record .command)
    (nested (.string (some "leaf")) depth) (nested (.array [.string (some "leaf")]) depth) := by
  induction depth with
  | zero =>
    have hname : Respelled (Record.command.place "name") (.string (some "leaf"))
        (.array [.string (some "leaf")]) := .oneText _
    exact .member hname []
  | succ depth ih =>
    have hlist : Respelled (Record.command.place "subcommands")
        (.array ([] ++ nested (.string (some "leaf")) depth :: []))
        (.array ([] ++ nested (.array [.string (some "leaf")]) depth :: [])) := .item ih
    exact .member hlist []

/-- A note that is no number is only passed over where nothing is held back; a list
around a name may be one level too many; and an argument that is only a name is not
told from a text. -/
theorem ofText_respelled_beyond :
    (∃ value value', Json.parse? unnotedText = some value ∧ Json.parse? notedText = some value' ∧
      Respelled (.record .command) value value' ∧ (ofValue? value).isSome = true ∧
      ofText "cp" notedText = .error (.grammarMalformed "cp" "not a grammar document")) ∧
    (Respelled (.record .command) (nested (.string (some "leaf")) 63)
        (nested (.array [.string (some "leaf")]) 63) ∧
      (ofValue? (nested (.string (some "leaf")) 63)).isSome = true ∧
      (ofValue? (nested (.array [.string (some "leaf")]) 63)).isNone = true) ∧
    (ofValue? (.object [(some "args", .array [.string (some "from")])])).isSome = true ∧
      (ofValue? (.object [(some "args", .string (some "from"))])).isNone = true := by
  refine ⟨?_, ⟨respelled_nested 63, by decide +kernel, by decide +kernel⟩, by decide +kernel,
    by decide +kernel⟩
  have hvalue : Json.parse? unnotedText = some (.object
      [(some "args", .object [(some "name", .string (some "from"))]),
        (some "name", .string (some "cp"))]) := by with_unfolding_all rfl
  have hvalue' : Json.parse? notedText = some (.object
      [(some "args", .object [(some "note", .number "1e999"),
        (some "name", .string (some "from"))]), (some "name", .string (some "cp"))]) := by
    with_unfolding_all rfl
  have hnote : "note" ∉ Record.slot.names := by decide
  have hargs : Respelled (Record.command.place "args")
      (.object [(some "name", .string (some "from"))])
      (.object [(some "note", .number "1e999"), (some "name", .string (some "from"))]) :=
    .slot (.unknown hnote _ _)
  refine ⟨_, _, hvalue, hvalue', .member hargs _, by decide +kernel, ?_⟩
  rw [ofText_of_parse hvalue']
  rfl

end CommandCompletion.Document
