/-
What a record in a document means depends on its fields alone.

What a value means depends on the place in which it stands: `Place.read` is all that the
reading of documents asks of it there. For a record this comes down to its fields:
`FieldAlike` says when one of them is as good as another, and two records whose fields
are alike mean the same, be they objects (`read_of_members`) or arrays (`read_of_items`).

A loader is a record with a tag. It is read off what is left without the tag, so its
members are compared before it is known which of them count (`decodeLoader_of_alike`).
-/
import CommandCompletion.Proofs.DocumentLimits

set_option autoImplicit false

namespace CommandCompletion

namespace Json.Value

/-- An array or an object: what can be a record or a list. -/
def isContainer : Value → Bool
  | array _ | object _ => true
  | _ => false

end Json.Value

namespace Document

open CommandCompletion.Json
open Named (defaulting)

/-! ## Places -/

/-- What is expected somewhere in a document. It decides what a value means there. -/
inductive Place where
  | record (kind : Record)
  | list (kind : Record)
  /-- One text or several. -/
  | texts
  /-- One argument or several. -/
  | slots
  /-- A text, a number or a literal. -/
  | plain
deriving DecidableEq, Repr

namespace Record

/-- What the field of this name holds. -/
def place : Record → String → Place
  | command, "name" => .texts
  | command, "subcommands" => .list command
  | command, "options" => .list option
  | command, "args" => .slots
  | command, "loadSpec" => .record loader
  | option, "name" => .texts
  | option, "args" => .slots
  | slot, "template" => .texts
  | slot, "suggestions" => .list choice
  | loader, "spec" => .record command
  | _, _ => .plain

/-- The fields that may be null, which is then as good as their missing. The others have a default
only where they are missing. -/
def omittable : Record → List String
  | command => ["name", "description", "args", "loadSpec", "priority"]
  | option => ["name", "description", "args", "priority"]
  | slot => ["name", "description", "template"]
  | choice => ["description", "priority"]
  | loader => []

/-- What there is to read off a record. A command and a loader nest commands, so there is something
to read for every number of levels. -/
def Meaning : Record → Type
  | command => Nat → Bool → Option Grammar
  | option => Option CommandOption
  | slot => Option Slot
  | choice => Option Choice
  | loader => Nat → Bool → Option (Loader Grammar)

/-- What is read off a value as a record of this kind. -/
def read : (kind : Record) → Value → kind.Meaning
  | command, value => fun levels held => readNode levels held value
  | option, value => readOption value
  | slot, value => decodeSlot value
  | choice, value => decodeChoice value
  | loader, value => fun levels held => decodeLoader held (readNode levels true) value

end Record

namespace Place

/-- What there is to read where this is expected. -/
def Meaning : Place → Type
  | record kind => kind.Meaning
  | list kind => Option (List kind.Meaning)
  | texts => Option (List String)
  | slots => Option (List Slot)
  | plain => Value

/-- What is read off a value where this is expected. -/
def read : (place : Place) → Value → place.Meaning
  | record kind, value => kind.read value
  | list kind, value => value.items?.map fun items => items.map kind.read
  | texts, value => oneOrMany Value.text? value
  | slots, value => oneOrMany decodeSlot value
  | plain, value => value

/-- The two values mean the same where this is expected: the same is read off both. -/
def Same (place : Place) (value value' : Value) : Prop := place.read value = place.read value'

end Place

/-! ## Fields -/

section Fields

variable {α : Type} {kind : Record} {name : String} {field field' : Option Value}
variable {read : Value → Option α}

/-- The two fields of this name are alike: they are the same, or one is missing where the other is
null, or what they hold means the same. Null is told apart from everything else, since a field may
be omitted for it. -/
inductive FieldAlike (kind : Record) (name : String) : Option Value → Option Value → Prop where
  | same (field : Option Value) : FieldAlike kind name field field
  | omitted (hname : name ∈ kind.omittable) : FieldAlike kind name none (some .null)
  | held {value value' : Value} (hnull : value = .null ↔ value' = .null)
      (hsame : (kind.place name).Same value value') :
      FieldAlike kind name (some value) (some value')

/-- An optional field is read alike, if what it holds is. Null and a missing field both count as
none. -/
theorem optional_of_alike (h : FieldAlike kind name field field')
    (hread : ∀ value value', (kind.place name).Same value value' → read value = read value') :
    optional read field = optional read field' := by
  cases h with
  | same => rfl
  | omitted => rfl
  | @held value value' hnull hsame =>
    by_cases hvalue : value = .null
    · rw [hvalue, hnull.mp hvalue]
    · rw [optional_some hvalue, optional_some fun hcontra => hvalue (hnull.mpr hcontra),
        hread value value' hsame]

/-- A field with a default is read alike, if null is not taken for it. -/
theorem defaulting_of_alike (default : α) (h : FieldAlike kind name field field')
    (hname : name ∉ kind.omittable)
    (hread : ∀ value value', (kind.place name).Same value value' → read value = read value') :
    defaulting default read field = defaulting default read field' := by
  cases h with
  | same => rfl
  | omitted homittable => exact absurd homittable hname
  | held hnull hsame => exact hread _ _ hsame

/-- So is a field that has to be there. -/
theorem required_of_alike (h : FieldAlike kind name field field') (hname : name ∉ kind.omittable)
    (hread : ∀ value value', (kind.place name).Same value value' → read value = read value') :
    required read field = required read field' := by
  cases h with
  | same => rfl
  | omitted homittable => exact absurd homittable hname
  | held hnull hsame => exact hread _ _ hsame

/-- What is plain is read alike because it is the same. -/
theorem read_of_plain (hplace : kind.place name = .plain) (read : Value → Option α)
    (value value' : Value) (hsame : (kind.place name).Same value value') :
    read value = read value' := by
  rw [hplace] at hsame
  exact congrArg read hsame

/-- Names are read alike where one text or several are expected. -/
theorem names_of_alike (h : FieldAlike kind name field field') (hplace : kind.place name = .texts) :
    readNames field = readNames field' := by
  refine congrArg (Option.map _) (optional_of_alike h fun value value' hsame => ?_)
  rw [hplace] at hsame
  exact hsame

/-- Arguments are read alike where one or several are expected. -/
theorem slots_of_alike (h : FieldAlike kind name field field') (hplace : kind.place name = .slots) :
    readSlots field = readSlots field' := by
  refine congrArg (Option.map _) (optional_of_alike h fun value value' hsame => ?_)
  rw [hplace] at hsame
  exact hsame

/-- A flag is plain, so it is read alike because it is the same. -/
theorem flag_of_alike (h : FieldAlike kind name field field') (hname : name ∉ kind.omittable)
    (hplace : kind.place name = .plain) :
    defaulting false Value.bool? field = defaulting false Value.bool? field' :=
  defaulting_of_alike false h hname (read_of_plain hplace _)

/-- Items are read alike if nothing is asked of them but what they mean. The lists may be of
different values. -/
theorem items_of_alike {item : Record} (h : FieldAlike kind name field field')
    (hname : name ∉ kind.omittable) (hplace : kind.place name = .list item)
    (ask : item.Meaning → Option α) :
    defaulting [] (readItems fun value => ask (item.read value)) field =
      defaulting [] (readItems fun value => ask (item.read value)) field' := by
  have hread : ∀ value, readItems (fun value => ask (item.read value)) value =
      ((Place.list item).read value).bind fun meanings => meanings.mapM ask := by
    intro value
    show value.items?.bind _ = (value.items?.map _).bind _
    rw [Option.bind_map]
    exact congrArg _ (funext fun items => List.mapM_map.symm)
  refine defaulting_of_alike [] h hname fun value value' hsame => ?_
  rw [hplace] at hsame
  rw [hread, hread, show (Place.list item).read value = _ from hsame]

end Fields

/-! ## Records -/

/-- An argument; its suggestions are read last. The decoder takes the list of them first, which can
only fail earlier. -/
def readSlot (value : Value) : Option Slot := do
  let field ← fields? Record.slot.names value
  let templates ← optional (oneOrMany Value.text?) (field "template")
  return {
    name := (← optional Value.text? (field "name")).getD ""
    description := ← optional Value.text? (field "description")
    isVariadic := ← defaulting false Value.bool? (field "isVariadic")
    isOptional := ← defaulting false Value.bool? (field "isOptional")
    isCommand := ← defaulting false Value.bool? (field "isCommand")
    templates := (templates.getD []).filterMap template?
    choices := ← defaulting [] (readItems decodeChoice) (field "suggestions") }

/-- The decoder comes to the same. -/
theorem decodeSlot_eq (value : Value) : decodeSlot value = readSlot value := by
  show (fields? Record.slot.names value >>= _) = (fields? Record.slot.names value >>= _)
  cases fields? Record.slot.names value with
  | none => rfl
  | some field =>
    have hchoices : defaulting [] (readItems decodeChoice) (field "suggestions") =
        (defaulting [] Value.items? (field "suggestions")).bind fun choices =>
          choices.mapM decodeChoice := by
      cases field "suggestions" <;> rfl
    simp only [Option.bind_eq_bind, Option.bind_some, hchoices]
    -- Without the list nothing comes of the argument, whatever was read before.
    cases defaulting [] Value.items? (field "suggestions") with
    | none => simp only [Option.bind_none, Option.bind_fun_none]
    | some choices => rfl

section Records

variable {kind : Record} {value value' : Value}

/-- Neither value is a record of this kind, or both are and their fields are alike. It does not
matter which of the two forms a record has. -/
inductive FieldsAlike (kind : Record) (value value' : Value) : Prop where
  | neither (hnone : fields? kind.names value = none) (hnone' : fields? kind.names value' = none)
  | both {field field' : Fields} (hfields : fields? kind.names value = some field)
      (hfields' : fields? kind.names value' = some field')
      (halike : ∀ name ∈ kind.names, FieldAlike kind name (field name) (field' name))

/-- A record is read alike if it is read alike off fields that are alike. This is what the lemmas
for the kinds of records have in common. -/
theorem bind_fields_of_alike {α : Type} {read : Fields → Option α}
    (h : FieldsAlike kind value value')
    (hread : ∀ field field' : Fields,
      (∀ name ∈ kind.names, FieldAlike kind name (field name) (field' name)) →
        read field = read field') :
    (fields? kind.names value).bind read = (fields? kind.names value').bind read := by
  cases h with
  | neither hnone hnone' => rw [hnone, hnone']
  | both hfields hfields' halike =>
    rw [hfields, hfields']
    exact hread _ _ halike

/-- An option is read alike, field by field: names and arguments as such, flags and texts because
they are the same. -/
theorem readOption_of_alike (h : FieldsAlike .option value value') :
    readOption value = readOption value' := by
  refine bind_fields_of_alike h fun field other halike => ?_
  have plain {α : Type} (read : Value → Option α) (name : String)
      (hname : name ∈ Record.option.names) (hplace : Record.option.place name = .plain) :
      optional read (field name) = optional read (other name) :=
    optional_of_alike (halike name hname) (read_of_plain hplace read)
  rw [names_of_alike (halike "name" (by decide)) rfl,
    plain Value.text? "description" (by decide) rfl,
    slots_of_alike (halike "args" (by decide)) rfl,
    flag_of_alike (halike "isPersistent" (by decide)) (by decide) rfl,
    flag_of_alike (halike "isRepeatable" (by decide)) (by decide) rfl,
    flag_of_alike (halike "hidden" (by decide)) (by decide) rfl,
    plain byte? "priority" (by decide) rfl]

/-- An argument is, with a list of choices in it. -/
theorem decodeSlot_of_alike (h : FieldsAlike .slot value value') :
    decodeSlot value = decodeSlot value' := by
  rw [decodeSlot_eq, decodeSlot_eq]
  refine bind_fields_of_alike h fun field other halike => ?_
  have plain (name : String) (hname : name ∈ Record.slot.names)
      (hplace : Record.slot.place name = .plain) :
      optional Value.text? (field name) = optional Value.text? (other name) :=
    optional_of_alike (halike name hname) (read_of_plain hplace _)
  have htemplates : optional (oneOrMany Value.text?) (field "template") =
      optional (oneOrMany Value.text?) (other "template") :=
    optional_of_alike (halike "template" (by decide)) fun _ _ hsame => hsame
  have hchoices : defaulting [] (readItems decodeChoice) (field "suggestions") =
      defaulting [] (readItems decodeChoice) (other "suggestions") :=
    items_of_alike (halike "suggestions" (by decide)) (by decide) rfl fun choice => choice
  rw [htemplates, plain "name" (by decide) rfl, plain "description" (by decide) rfl,
    flag_of_alike (halike "isVariadic" (by decide)) (by decide) rfl,
    flag_of_alike (halike "isOptional" (by decide)) (by decide) rfl,
    flag_of_alike (halike "isCommand" (by decide)) (by decide) rfl, hchoices]

/-- A choice is, if it is an object; a text alone is a choice as well, and has no fields. -/
theorem decodeChoice_of_alike {members members' : List (Option String × Value)}
    (h : FieldsAlike .choice (.object members) (.object members')) :
    decodeChoice (.object members) = decodeChoice (.object members') := by
  refine bind_fields_of_alike h fun field other halike => ?_
  rw [required_of_alike (halike "name" (by decide)) (by decide) (read_of_plain rfl _),
    optional_of_alike (halike "description" (by decide)) (read_of_plain rfl _),
    optional_of_alike (halike "priority" (by decide)) (read_of_plain rfl _)]

/-- A command is, with two lists and a loader in it. Nested commands mean the same on every number
of levels, so on the ones that are left. -/
theorem readNodeWith_of_alike (levels : Nat) (held : Bool) (h : FieldsAlike .command value value') :
    readNodeWith (readNode levels) held value = readNodeWith (readNode levels) held value' := by
  refine bind_fields_of_alike h fun field other halike => ?_
  have plain {α : Type} (read : Value → Option α) (name : String)
      (hname : name ∈ Record.command.names) (hplace : Record.command.place name = .plain) :
      optional read (field name) = optional read (other name) :=
    optional_of_alike (halike name hname) (read_of_plain hplace read)
  have hchildren : defaulting [] (readItems (readNode levels held)) (field "subcommands") =
      defaulting [] (readItems (readNode levels held)) (other "subcommands") :=
    items_of_alike (halike "subcommands" (by decide)) (by decide) rfl fun node => node levels held
  have hoptions : defaulting [] (readItems readOption) (field "options") =
      defaulting [] (readItems readOption) (other "options") :=
    items_of_alike (halike "options" (by decide)) (by decide) rfl fun option => option
  have hloader : optional (decodeLoader held (readNode levels true)) (field "loadSpec") =
      optional (decodeLoader held (readNode levels true)) (other "loadSpec") :=
    optional_of_alike (halike "loadSpec" (by decide)) fun _ _ hsame =>
      congrFun (congrFun hsame levels) held
  rw [names_of_alike (halike "name" (by decide)) rfl,
    plain Value.text? "description" (by decide) rfl,
    hchildren, hoptions, slots_of_alike (halike "args" (by decide)) rfl, hloader,
    flag_of_alike (halike "hidden" (by decide)) (by decide) rfl,
    plain byte? "priority" (by decide) rfl]

/-- So it is on every number of levels. -/
theorem readNode_of_alike (h : FieldsAlike .command value value') :
    ∀ levels held, readNode levels held value = readNode levels held value'
  | 0, _ => rfl
  | 1, held => readNodeWith_of_alike 0 held h
  | levels + 2, held => readNodeWith_of_alike levels held h

end Records

/-! ## Objects -/

section Members

variable {kind : Record} {members members' : List (Option String × Value)} {name : String}

/-- What the two objects hold under the names of this kind is alike. An object is no record if a key
has no text or one of the names is there twice, so the two have to agree on these as well. -/
structure MembersAlike (kind : Record) (members members' : List (Option String × Value)) :
    Prop where
  keys : (members.all fun (key, _) => key.isSome) = members'.all fun (key, _) => key.isSome
  once : ∀ name ∈ kind.names, occurrences members name ≤ 1 ↔ occurrences members' name ≤ 1
  field : ∀ name ∈ kind.names, occurrences members name ≤ 1 →
    FieldAlike kind name (lookup members name) (lookup members' name)

/-- Objects whose members are alike are both records or both none. -/
theorem fieldsAlike_of_members (h : MembersAlike kind members members') :
    FieldsAlike kind (.object members) (.object members') := by
  have honce : (kind.names.all fun name => occurrences members name ≤ 1) =
      kind.names.all fun name => occurrences members' name ≤ 1 := by
    rw [Bool.eq_iff_iff, List.all_eq_true, List.all_eq_true]
    refine forall_congr' fun name => forall_congr' fun hname => ?_
    rw [decide_eq_true_iff, decide_eq_true_iff]
    exact h.once name hname
  have hfields : ∀ members, fields? kind.names (.object members) =
      if (members.all (fun (key, _) => key.isSome) &&
        kind.names.all fun name => occurrences members name ≤ 1) = true
      then some (lookup members) else none := fun _ => rfl
  by_cases hsound : (members.all (fun (key, _) => key.isSome) &&
      kind.names.all fun name => occurrences members name ≤ 1) = true
  · have hall := List.all_eq_true.mp (Bool.and_eq_true _ _ ▸ hsound).2
    refine .both ((hfields members).trans (if_pos hsound)) ((hfields members').trans (if_pos ?_))
      fun name hname => h.field name hname (decide_eq_true_iff.mp (hall name hname))
    rw [← h.keys, ← honce]
    exact hsound
  · refine .neither ((hfields members).trans (if_neg hsound)) ((hfields members').trans (if_neg ?_))
    rw [← h.keys, ← honce]
    exact hsound

/-- A name that is found and is not there twice is there once. -/
theorem occurrences_eq_one_iff : occurrences members name = 1 ↔
    occurrences members name ≤ 1 ∧ (lookup members name).isSome = true := by
  have hfound : (lookup members name).isSome = true ↔ 0 < occurrences members name := by
    unfold lookup occurrences
    rw [Option.isSome_map, List.find?_isSome, List.countP_pos_iff]
  rw [hfound]
  omega

/-- What is left of an object without its tag reads as the object does: taking the tag out changes
neither which keys have a text nor what stands under another name. -/
theorem bind_fields_rest {α : Type} {tag : String} (hname : name ≠ tag)
    (members : List (Option String × Value)) (read : Option Value → Option α) :
    ((fields? [name] (.object (members.filter fun (key, _) => key != some tag))).bind
        fun field => read (field name)) =
      if (members.all fun (key, _) => key.isSome) = true ∧ occurrences members name ≤ 1 then
        read (lookup members name) else none := by
  -- The tag goes by another name, and that name has a text: no check misses the tag.
  have hkept : (fun member : Option String × Value =>
      (member.1 != some tag) && (member.1 == some name)) = fun member => member.1 == some name := by
    funext member
    by_cases hkey : member.1 = some name
    · rw [hkey]
      simpa using hname
    · rw [beq_eq_false_iff_ne.mpr hkey, Bool.and_false]
  have hkeys : ((members.filter fun (key, _) => key != some tag).all fun (key, _) => key.isSome) =
      members.all fun (key, _) => key.isSome := by
    rw [List.all_filter]
    congr 1
    funext member
    by_cases hkey : member.1 = some tag
    · simp [hkey]
    · simp [hkey]
  have honce : occurrences (members.filter fun (key, _) => key != some tag) name =
      occurrences members name := by
    unfold occurrences
    rw [List.countP_filter]
    exact congrArg (List.countP · members) ((funext fun _ => Bool.and_comm _ _).trans hkept)
  have hlookup : lookup (members.filter fun (key, _) => key != some tag) name =
      lookup members name := by
    unfold lookup
    rw [List.find?_filter]
    congr 2
    funext member
    rw [Bool.decide_and, Bool.decide_eq_true, Bool.decide_eq_true]
    exact congrFun hkept member
  show ((if _ then some _ else none : Option Fields).bind _) = _
  rw [hkeys, List.all_cons, List.all_nil, Bool.and_true, honce]
  by_cases hsound : (members.all fun (key, _) => key.isSome) = true ∧ occurrences members name ≤ 1
  · rw [if_pos hsound, if_pos (by simpa using hsound), Option.bind_some, hlookup]
  · rw [if_neg hsound, if_neg (by simpa using hsound), Option.bind_none]

/-- So a field of the rest is read alike if it is one of the whole. -/
theorem bind_fields_rest_of_alike {α : Type} {tag : String} (h : MembersAlike kind members members')
    (hmem : name ∈ kind.names) (hname : name ≠ tag) (read : Option Value → Option α)
    (hread : FieldAlike kind name (lookup members name) (lookup members' name) →
      read (lookup members name) = read (lookup members' name)) :
    ((fields? [name] (.object (members.filter fun (key, _) => key != some tag))).bind
        fun field => read (field name)) =
      (fields? [name] (.object (members'.filter fun (key, _) => key != some tag))).bind
        fun field => read (field name) := by
  rw [bind_fields_rest hname, bind_fields_rest hname, ← h.keys]
  by_cases hsound : (members.all fun (key, _) => key.isSome) = true ∧ occurrences members name ≤ 1
  · rw [if_pos hsound, if_pos ⟨hsound.1, (h.once name hmem).mp hsound.2⟩,
      hread (h.field name hmem hsound.2)]
  · rw [if_neg hsound, if_neg fun hcontra => hsound ⟨hcontra.1, (h.once name hmem).mpr hcontra.2⟩]

/-- A loader of any kind reads one field of the rest: a command, a key or the name of a generator.
-/
theorem loaderOfKind_of_alike (h : MembersAlike .loader members members') (levels : Nat)
    (kind : LoaderKind) :
    loaderOfKind (readNode levels true)
        (.object (members.filter fun (key, _) => key != some "kind")) kind =
      loaderOfKind (readNode levels true)
        (.object (members'.filter fun (key, _) => key != some "kind")) kind := by
  have hspec : "spec" ∈ Record.loader.names ∧ "spec" ≠ "kind" := by decide
  have hkey : "key" ∈ Record.loader.names ∧ "key" ≠ "kind" := by decide
  have hgenerator : "name" ∈ Record.loader.names ∧ "name" ≠ "kind" := by decide
  cases kind with
  | inline =>
    refine bind_fields_rest_of_alike h hspec.1 hspec.2
      (fun part => (required (readNode levels true) part).map Loader.inline) fun halike => ?_
    exact congrArg _ (required_of_alike halike (by decide) fun _ _ hsame =>
      congrFun (congrFun hsame levels) true)
  | reference =>
    refine bind_fields_rest_of_alike h hkey.1 hkey.2
      (fun part => (required Value.text? part).map Loader.reference) fun halike => ?_
    exact congrArg _ (required_of_alike halike (by decide) (read_of_plain rfl _))
  | generator =>
    refine bind_fields_rest_of_alike h hgenerator.1 hgenerator.2
      (fun part => (required Value.text? part).map Loader.generator) fun halike => ?_
    exact congrArg _ (required_of_alike halike (by decide) (read_of_plain rfl _))

/-- A loader means what its members mean. The tag is found first, which decides which other member
counts. -/
theorem decodeLoader_of_alike (h : MembersAlike .loader members members') (levels : Nat)
    (held : Bool) : decodeLoader held (readNode levels true) (.object members) =
      decodeLoader held (readNode levels true) (.object members') := by
  -- The tag is plain, so if there is one in both it is the same.
  have htag : occurrences members "kind" ≤ 1 → lookup members "kind" = lookup members' "kind" := by
    intro honce
    generalize hfield : lookup members "kind" = field, hfield' : lookup members' "kind" = field'
    have halike := hfield' ▸ hfield ▸ h.field "kind" (by decide) honce
    cases halike with
    | same => rfl
    | omitted hname => cases hname
    | held hnull hsame => exact congrArg some hsame
  have hone : occurrences members "kind" = 1 ↔ occurrences members' "kind" = 1 := by
    rw [occurrences_eq_one_iff, occurrences_eq_one_iff, ← h.once "kind" (by decide)]
    exact and_congr_right fun honce => by rw [htag honce]
  have htagged : ∀ members, tagged? "kind" (.object members) =
      if occurrences members "kind" = 1 then (lookup members "kind").map fun tag =>
        ⟨tag, .object (members.filter fun (key, _) => key != some "kind")⟩ else none := fun _ => rfl
  rw [decodeLoader_eq, decodeLoader_eq, htagged, htagged]
  by_cases hkind : occurrences members "kind" = 1
  · rw [if_pos hkind, if_pos (hone.mp hkind), ← htag (Nat.le_of_eq hkind), Option.bind_map,
      Option.bind_map]
    congr 1
    funext tag
    exact congrArg (Option.bind _) (funext fun kind => loaderOfKind_of_alike h levels kind)
  · rw [if_neg hkind, if_neg (hkind ∘ hone.mpr)]

/-- **An object means what its members mean**, whatever record it is (specification, § E2.1). One
case for each kind of record. -/
theorem read_of_members (h : MembersAlike kind members members') :
    kind.read (.object members) = kind.read (.object members') := by
  cases kind with
  | command => exact funext fun levels => funext (readNode_of_alike (fieldsAlike_of_members h) levels)
  | option => exact readOption_of_alike (fieldsAlike_of_members h)
  | slot => exact decodeSlot_of_alike (fieldsAlike_of_members h)
  | choice => exact decodeChoice_of_alike (fieldsAlike_of_members h)
  | loader => exact funext fun levels => funext (decodeLoader_of_alike h levels)

end Members

/-! ## Arrays -/

/-- An array that is a record means what its items mean. A loader is left out: as an array it begins
with its tag. -/
theorem read_of_items {kind : Record} {items items' : List Value} (hkind : kind ≠ .loader)
    (h : FieldsAlike kind (.array items) (.array items')) :
    kind.read (.array items) = kind.read (.array items') := by
  cases kind with
  | command => exact funext fun levels => funext (readNode_of_alike h levels)
  | option => exact readOption_of_alike h
  | slot => exact decodeSlot_of_alike h
  | choice => rfl
  | loader => exact absurd rfl hkind

end Document

end CommandCompletion
