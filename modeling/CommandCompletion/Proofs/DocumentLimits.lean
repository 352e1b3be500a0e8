/-
What a grammar document says, and the limits within which it is heard.

The decoder of documents does two things at once. It reads off what is written, and it
turns a document down that nests too deep or holds an unsound value where values are held
back. Here the two are taken apart: `readNode` reads without asking for any limit,
`NodeWithin` is what is asked, and a document is decoded exactly if it can be read and
is within the limits (`decodeNode_eq_some_iff`).

Nothing is asked of what is passed over. Of what is read, each record and each list
counts as a level, and the values that are held back, which are those of `name`, `args`
and `loadSpec`, must be sound as a whole.
-/
import CommandCompletion.Grammar.Document

set_option autoImplicit false

namespace CommandCompletion

/-! ## Parts of a sound value -/

namespace Json

variable {levels : Nat} {value part : Value} {items : List Value} {field : Fields}
variable {members : List (Option String × Value)} {names : List String} {name : String}

/-- What is found under a name is one of the members, under this name. -/
theorem mem_of_lookup (h : lookup members name = some part) : (some name, part) ∈ members := by
  unfold lookup at h
  obtain ⟨⟨key, found⟩, hfind, rfl⟩ := Option.map_eq_some_iff.mp h
  have hkey : key = some name := by simpa using List.find?_some hfind
  rw [← hkey]
  exact List.mem_of_find?_eq_some hfind

/-- What is found in an array under a name is one of its items. -/
theorem mem_of_lookup_zip (h : (names.zip items).lookup name = some part) : part ∈ items := by
  obtain ⟨before, after, hzip, -⟩ := List.lookup_eq_some_iff.mp h
  have hmem : (name, part) ∈ names.zip items := by
    rw [hzip]
    exact List.mem_append_right _ List.mem_cons_self
  exact (List.of_mem_zip hmem).2

/-- Items are sound if each of them is. -/
theorem soundItems_iff : soundItems levels items = true ↔
    ∀ item ∈ items, item.isSound levels = true := by
  induction items with
  | nil => simp [soundItems]
  | cons item items ih => rw [soundItems, Bool.and_eq_true, ih, List.forall_mem_cons]

/-- Members are sound if each of them has a name with a text and a sound value. -/
theorem soundMembers_iff : soundMembers levels members = true ↔
    ∀ member ∈ members, member.1.isSome = true ∧ member.2.isSound levels = true := by
  induction members with
  | nil => simp [soundMembers]
  | cons member members ih =>
    obtain ⟨key, value⟩ := member
    rw [soundMembers, Bool.and_eq_true, Bool.and_eq_true, ih, List.forall_mem_cons]

/-- An array is a level, and its items are sound on the next. -/
theorem isSound_array_iff : (Value.array items).isSound levels = true ↔
    0 < levels ∧ ∀ item ∈ items, item.isSound (levels - 1) = true := by
  rw [Value.isSound, Bool.and_eq_true, decide_eq_true_iff, soundItems_iff]

/-- An object is a level as well, and its members are sound on the next. -/
theorem isSound_object_iff : (Value.object members).isSound levels = true ↔ 0 < levels ∧
    ∀ member ∈ members, member.1.isSome = true ∧ member.2.isSound (levels - 1) = true := by
  rw [Value.isSound, Bool.and_eq_true, decide_eq_true_iff, soundMembers_iff]

/-- A record is a level, and all that stands in it is sound on the next, be it an object or an
array. -/
theorem isSound_fields (hsound : value.isSound levels = true)
    (hfields : fields? names value = some field) :
    0 < levels ∧ ∀ name, ∀ part ∈ field name, part.isSound (levels - 1) = true := by
  cases value with
  | object members =>
    obtain ⟨hlevels, hmembers⟩ := isSound_object_iff.mp hsound
    obtain ⟨-, hfield⟩ := Option.ite_none_right_eq_some.mp hfields
    cases hfield
    exact ⟨hlevels, fun name part hpart => (hmembers _ (mem_of_lookup hpart)).2⟩
  | array items =>
    obtain ⟨hlevels, hitems⟩ := isSound_array_iff.mp hsound
    obtain ⟨-, hfield⟩ := Option.ite_none_right_eq_some.mp hfields
    cases hfield
    exact ⟨hlevels, fun name part hpart => hitems _ (mem_of_lookup_zip hpart)⟩
  | null => cases hfields
  | bool _ => cases hfields
  | number _ => cases hfields
  | string _ => cases hfields

/-- Taking the tag out leaves a sound value, with as many levels as before. -/
theorem isSound_rest {tagged : Tagged} (hsound : value.isSound levels = true)
    (htagged : tagged? name value = some tagged) : tagged.rest.isSound levels = true := by
  unfold tagged? at htagged
  -- A tagged value is an object with the tag as a member, or an array that begins with it.
  split at htagged
  · obtain ⟨hlevels, hmembers⟩ := isSound_object_iff.mp hsound
    obtain ⟨-, hmap⟩ := Option.ite_none_right_eq_some.mp htagged
    obtain ⟨tag, -, rfl⟩ := Option.map_eq_some_iff.mp hmap
    exact isSound_object_iff.mpr
      ⟨hlevels, fun member hmem => hmembers member (List.mem_filter.mp hmem).1⟩
  · obtain ⟨hlevels, hitems⟩ := isSound_array_iff.mp hsound
    cases htagged
    exact isSound_array_iff.mpr
      ⟨hlevels, fun item hmem => hitems item (List.mem_cons_of_mem _ hmem)⟩
  · cases htagged

end Json

namespace Document

open CommandCompletion.Json
open Named (defaulting)

/-! ## Reading without limits -/

/-- The kinds of records in a document (specification, § E2.1). -/
inductive Record where
  | command | option | slot | choice | loader
deriving DecidableEq, Repr

/-- The names of the fields, in order; an array holds the fields in this order and without their
names. -/
def Record.names : Record → List String
  | command => ["name", "description", "subcommands", "options", "args", "loadSpec", "hidden",
      "priority"]
  | option => ["name", "description", "args", "isPersistent", "isRepeatable", "hidden", "priority"]
  | slot => ["name", "description", "isVariadic", "isOptional", "isCommand", "template",
      "suggestions"]
  | choice => ["name", "description", "priority"]
  | loader => ["kind", "spec", "key", "name"]

/-- The names of a command or an option: one, several, or none if the field is missing. -/
def readNames (field : Option Value) : Option (List String) :=
  (optional (oneOrMany Value.text?) field).map (·.getD [])

/-- The arguments of a command or an option: one, several, or none if the field is missing. -/
def readSlots (field : Option Value) : Option (List Slot) :=
  (optional (oneOrMany decodeSlot) field).map (·.getD [])

/-- The items of an array, each of which can be read. -/
def readItems {α : Type} (read : Value → Option α) (value : Value) : Option (List α) :=
  value.items?.bind fun items => items.mapM read

/-- A loader of this kind, from what is left without the tag. -/
def loaderOfKind (decodeFragment : Value → Option Grammar) (rest : Value) :
    LoaderKind → Option (Loader Grammar)
  | .inline => (fields? ["spec"] rest).bind fun field =>
    (required decodeFragment (field "spec")).map .inline
  | .reference => (fields? ["key"] rest).bind fun field =>
    (required Value.text? (field "key")).map .reference
  | .generator => (fields? ["name"] rest).bind fun field =>
    (required Value.text? (field "name")).map .generator

/-- The decoder of loaders is taken apart by the kind: first the tag, then the rest. Limits do not
come in, as a loader is held back as a whole. -/
theorem decodeLoader_eq (held : Bool) (decodeFragment : Value → Option Grammar) (value : Value) :
    decodeLoader held decodeFragment value = (tagged? "kind" value).bind fun tagged =>
      (loaderKind? held tagged.tag).bind (loaderOfKind decodeFragment tagged.rest) := by
  unfold decodeLoader
  simp only [Option.bind_eq_bind, Option.pure_def]
  congr 1
  funext tagged
  congr 1
  funext kind
  cases kind <;> simp only [loaderOfKind, Option.map_eq_bind] <;> rfl

/-- An option, read field by field in the order in which the decoder does it, without a level being
asked for. -/
def readOption (value : Value) : Option CommandOption := do
  let field ← fields? Record.option.names value
  return {
    names := ← readNames (field "name")
    description := ← optional Value.text? (field "description")
    args := ← readSlots (field "args")
    isPersistent := ← defaulting false Value.bool? (field "isPersistent")
    isRepeatable := ← defaulting false Value.bool? (field "isRepeatable")
    hidden := ← defaulting false Value.bool? (field "hidden")
    priority := ← optional byte? (field "priority") }

/-- A command, whose nested commands are read by `readChild`, in lists and in a loader. -/
def readNodeWith (readChild : Bool → Value → Option Grammar) (held : Bool) (value : Value) :
    Option Grammar := do
  let field ← fields? Record.command.names value
  return {
    id := ()
    names := ← readNames (field "name")
    description := ← optional Value.text? (field "description")
    children := ← defaulting [] (readItems (readChild held)) (field "subcommands")
    options := ← defaulting [] (readItems readOption) (field "options")
    args := ← readSlots (field "args")
    loader := ← optional (decodeLoader held (readChild true)) (field "loadSpec")
    hidden := ← defaulting false Value.bool? (field "hidden")
    priority := ← optional byte? (field "priority") }

/-- A command with as many commands nested in it as the levels would let there be. Levels are only a
measure here, so that reading ends. -/
def readNode : Nat → Bool → Value → Option Grammar
  | 0, _, _ => none
  | 1, held, value => readNodeWith (fun _ _ => none) held value
  | levels + 2, held, value => readNodeWith (readNode levels) held value

/-! ## Limits -/

/-- What is held back is sound: it is kept as a value before it is decoded, and only sound values
are kept. -/
def HeldWithin (levels : Nat) (field : Option Value) : Prop :=
  ∀ value ∈ field, value.isSound levels = true

/-- A list is a level, and its items are within the limits. What is no list is turned down anyway.
-/
def ItemsWithin (levels : Nat) (within : Value → Prop) (field : Option Value) : Prop :=
  ∀ items, field = some (.array items) → 0 < levels ∧ ∀ item ∈ items, within item

/-- The limits for an option, which is a level and has two fields that are held back. -/
def OptionWithin (levels : Nat) (value : Value) : Prop :=
  ∀ field, fields? Record.option.names value = some field →
    0 < levels ∧ HeldWithin (levels - 1) (field "name") ∧ HeldWithin (levels - 1) (field "args")

/-- The limits for the fields of a command; `levels` counts its own container. Three fields are held
back, two are lists. -/
structure FieldsWithin (within : Value → Prop) (levels : Nat) (field : Fields) : Prop where
  names : HeldWithin (levels - 1) (field "name")
  args : HeldWithin (levels - 1) (field "args")
  loader : HeldWithin (levels - 1) (field "loadSpec")
  children : ItemsWithin (levels - 1) within (field "subcommands")
  options : ItemsWithin (levels - 1) (OptionWithin (levels - 2)) (field "options")

/-- The limits for a command in a document that may nest `levels` deep from here. On the last level
nothing may be nested, so no child is within them. -/
def NodeWithin : Nat → Value → Prop
  | 0, value => fields? Record.command.names value = none
  | 1, value => ∀ field, fields? Record.command.names value = some field →
      FieldsWithin (fun _ => False) 1 field
  | levels + 2, value => ∀ field, fields? Record.command.names value = some field →
      FieldsWithin (NodeWithin levels) (levels + 2) field

/-! ## A field within its limits -/

section Fields

variable {α : Type} {levels : Nat} {decode read : Value → Option α} {field : Option Value}

/-- A field that is there and not null is decoded. -/
theorem optional_some {value : Value} (h : value ≠ .null) :
    optional decode (some value) = (decode value).map some := by
  cases value with
  | null => exact absurd rfl h
  | _ => rfl

/-- Of a field within the limits, holding it back makes no difference. -/
theorem optional_heldBack (hwithin : HeldWithin levels field)
    (h : ∀ value ∈ field, decode value = read value) :
    optional (heldBack levels decode) field = optional read field := by
  rcases field with _ | value
  · rfl
  by_cases hnull : value = .null
  · rw [hnull]
    rfl
  · have hsound : heldBack levels decode value = decode value := if_pos (hwithin value rfl)
    rw [optional_some hnull, optional_some hnull, hsound, h value rfl]

/-- A field that was held back and decoded is within the limits; null is decoded to nothing, and is
sound. -/
theorem heldWithin_of_optional {result : Option α}
    (h : optional (heldBack levels decode) field = some result) : HeldWithin levels field := by
  rintro value rfl
  by_cases hnull : value = .null
  · rw [hnull]
    rfl
  by_cases hsound : value.isSound levels = true
  · exact hsound
  · have hfailed : heldBack levels decode value = none := if_neg hsound
    rw [optional_some hnull, hfailed] at h
    cases h

/-- Items that are decoded alike are decoded alike in a list. -/
theorem mapM_congr {items : List Value} (h : ∀ item ∈ items, decode item = read item) :
    items.mapM decode = items.mapM read := by
  induction items with
  | nil => rfl
  | cons item items ih =>
    rw [List.forall_mem_cons] at h
    rw [List.mapM_cons, List.mapM_cons, h.1, ih h.2]

/-- What follows of an item from its being decoded follows of all of them. -/
theorem forall_mem_of_mapM {items : List Value} {results : List α} {P : Value → Prop}
    (h : items.mapM decode = some results)
    (hitem : ∀ value result, decode value = some result → P value) :
    ∀ item ∈ items, P item := by
  induction items generalizing results with
  | nil => exact fun item hmem => absurd hmem List.not_mem_nil
  | cons item items ih =>
    rw [List.mapM_cons] at h
    obtain ⟨first, hfirst, hrest⟩ := Option.bind_eq_some_iff.mp h
    obtain ⟨rest, hrest, -⟩ := Option.bind_eq_some_iff.mp hrest
    exact List.forall_mem_cons.mpr ⟨hitem item first hfirst, ih hrest⟩

/-- A list within the limits is decoded as it is read, if its items are. -/
theorem defaulting_list (default : List α) {within : Value → Prop}
    (hwithin : ItemsWithin levels within field)
    (h : ∀ value, within value → decode value = read value) :
    defaulting default (list? levels decode) field = defaulting default (readItems read) field := by
  rcases field with _ | value
  · rfl
  cases value with
  | array items =>
    obtain ⟨hlevels, hitems⟩ := hwithin items rfl
    show (if 0 < levels then items.mapM decode else none) = items.mapM read
    rw [if_pos hlevels]
    exact mapM_congr fun item hmem => h item (hitems item hmem)
  | _ => rfl

/-- A list that was decoded is within the limits, if its items are. -/
theorem itemsWithin_of_defaulting (default : List α) {within : Value → Prop} {result : List α}
    (h : defaulting default (list? levels decode) field = some result)
    (hitem : ∀ value item, decode value = some item → within value) :
    ItemsWithin levels within field := by
  rintro items rfl
  obtain ⟨hlevels, hitems⟩ := Option.ite_none_right_eq_some.mp h
  exact ⟨hlevels, forall_mem_of_mapM hitems hitem⟩

end Fields

/-! ## Options -/

section Options

variable {levels : Nat} {value : Value}

/-- An option within the limits is decoded as it is read: the guard for its level passes, and
holding back makes no difference. -/
theorem decodeOption_of_within (h : OptionWithin levels value) :
    decodeOption levels value = readOption value := by
  show (guard (0 < levels) >>= fun _ => fields? Record.option.names value >>= _) =
    (fields? Record.option.names value >>= _)
  cases hfields : fields? Record.option.names value with
  | none => cases (guard (0 < levels) : Option Unit) <;> rfl
  | some field =>
    obtain ⟨hlevels, hnames, hargs⟩ := h field hfields
    have hguard : (guard (0 < levels) : Option Unit) = some () := if_pos hlevels
    have hread : decodeNames (levels - 1) (field "name") = readNames (field "name") :=
      congrArg (Option.map _) (optional_heldBack hnames fun _ _ => rfl)
    have hslots : decodeSlots (levels - 1) (field "args") = readSlots (field "args") :=
      congrArg (Option.map _) (optional_heldBack hargs fun _ _ => rfl)
    rw [hguard, Option.bind_eq_bind, Option.bind_some, Option.bind_eq_bind, Option.bind_some,
      Option.bind_eq_bind, Option.bind_some, hread, hslots]

/-- An option that was decoded is within the limits, which are all that was asked of it. -/
theorem optionWithin_of_decodeOption {option : CommandOption}
    (h : decodeOption levels value = some option) : OptionWithin levels value := by
  intro field hfields
  unfold decodeOption at h
  obtain ⟨_, hguard, h⟩ := Option.bind_eq_some_iff.mp h
  obtain ⟨_, hfound, h⟩ := Option.bind_eq_some_iff.mp h
  cases hfound.symm.trans hfields
  obtain ⟨names, hnames, h⟩ := Option.bind_eq_some_iff.mp h
  obtain ⟨description, -, h⟩ := Option.bind_eq_some_iff.mp h
  obtain ⟨args, hargs, -⟩ := Option.bind_eq_some_iff.mp h
  obtain ⟨_, hnames, -⟩ := Option.map_eq_some_iff.mp hnames
  obtain ⟨_, hargs, -⟩ := Option.map_eq_some_iff.mp hargs
  have hlevels : (if 0 < levels then some () else none) = some () := hguard
  exact ⟨(Option.ite_none_right_eq_some.mp hlevels).1, heldWithin_of_optional hnames,
    heldWithin_of_optional hargs⟩

/-- A sound value is within them. -/
theorem optionWithin_of_isSound (h : value.isSound levels = true) : OptionWithin levels value := by
  intro field hfields
  obtain ⟨hlevels, hparts⟩ := isSound_fields h hfields
  exact ⟨hlevels, hparts "name", hparts "args"⟩

end Options

/-! ## Commands -/

section Commands

variable {levels : Nat} {held : Bool} {value : Value} {field : Fields}
variable {decodeChild readChild : Bool → Value → Option Grammar} {within : Value → Prop}

/-- The loader of a sound value only carries sound nodes, so it is decoded alike if these are. -/
theorem decodeLoader_of_isSound {decode read : Value → Option Grammar}
    (hsound : value.isSound levels = true)
    (h : ∀ part, 0 < levels → part.isSound (levels - 1) = true → decode part = read part) :
    decodeLoader held decode value = decodeLoader held read value := by
  rw [decodeLoader_eq, decodeLoader_eq]
  cases htagged : tagged? "kind" value with
  | none => rfl
  | some tagged =>
    have hrest := isSound_rest hsound htagged
    rw [Option.bind_some, Option.bind_some]
    congr 1
    funext kind
    -- Only an inline loader decodes a node. It stands in the rest, one level down.
    cases kind with
    | inline =>
      unfold loaderOfKind
      cases hfields : fields? ["spec"] tagged.rest with
      | none => rfl
      | some field =>
        obtain ⟨hlevels, hparts⟩ := isSound_fields hrest hfields
        have hspec : required decode (field "spec") = required read (field "spec") := by
          cases hpart : field "spec" with
          | none => rfl
          | some part => exact h part hlevels (hparts "spec" part hpart)
        rw [Option.bind_some, Option.bind_some, hspec]
    | reference => rfl
    | generator => rfl

/-- A command within the limits is decoded as it is read, if nested commands are. A nested one
stands in a list, or in a loader, where it is sound and so within the limits too. -/
theorem decodeNodeWith_of_within
    (hchild : ∀ held value, within value → decodeChild held value = readChild held value)
    (hsound : ∀ value, 0 < levels - 1 → value.isSound (levels - 2) = true → within value)
    (h : ∀ field, fields? Record.command.names value = some field →
      FieldsWithin within levels field) :
    decodeNodeWith decodeChild levels held value = readNodeWith readChild held value := by
  show (fields? Record.command.names value >>= _) = (fields? Record.command.names value >>= _)
  cases hfields : fields? Record.command.names value with
  | none => rfl
  | some field =>
    have hwithin := h field hfields
    have hnames : decodeNames (levels - 1) (field "name") = readNames (field "name") :=
      congrArg (Option.map _) (optional_heldBack hwithin.names fun _ _ => rfl)
    have hslots : decodeSlots (levels - 1) (field "args") = readSlots (field "args") :=
      congrArg (Option.map _) (optional_heldBack hwithin.args fun _ _ => rfl)
    have hchildren := defaulting_list [] hwithin.children (hchild held)
    have hoptions := defaulting_list [] hwithin.options
      fun value (hoption : OptionWithin (levels - 2) value) => decodeOption_of_within hoption
    have hloader : optional (heldBack (levels - 1) (decodeLoader held (decodeChild true)))
        (field "loadSpec") = optional (decodeLoader held (readChild true)) (field "loadSpec") := by
      refine optional_heldBack hwithin.loader fun value hvalue => ?_
      refine decodeLoader_of_isSound (hwithin.loader value hvalue) fun part hlevels hpart => ?_
      exact hchild true part (hsound part hlevels hpart)
    rw [Option.bind_eq_bind, Option.bind_some, Option.bind_eq_bind, Option.bind_some, hnames,
      hchildren, hoptions, hslots, hloader]

/-- A command that was decoded is within the limits, if nested commands are. Each field that has
limits was decoded on the way. -/
theorem fieldsWithin_of_decodeNodeWith {node : Grammar}
    (hchild : ∀ held value node, decodeChild held value = some node → within value)
    (h : decodeNodeWith decodeChild levels held value = some node)
    (hfields : fields? Record.command.names value = some field) :
    FieldsWithin within levels field := by
  unfold decodeNodeWith at h
  obtain ⟨_, hfound, h⟩ := Option.bind_eq_some_iff.mp h
  cases hfound.symm.trans hfields
  obtain ⟨names, hnames, h⟩ := Option.bind_eq_some_iff.mp h
  obtain ⟨description, -, h⟩ := Option.bind_eq_some_iff.mp h
  obtain ⟨children, hchildren, h⟩ := Option.bind_eq_some_iff.mp h
  obtain ⟨options, hoptions, h⟩ := Option.bind_eq_some_iff.mp h
  obtain ⟨args, hargs, h⟩ := Option.bind_eq_some_iff.mp h
  obtain ⟨loader, hloader, -⟩ := Option.bind_eq_some_iff.mp h
  obtain ⟨_, hnames, -⟩ := Option.map_eq_some_iff.mp hnames
  obtain ⟨_, hargs, -⟩ := Option.map_eq_some_iff.mp hargs
  exact {
    names := heldWithin_of_optional hnames
    args := heldWithin_of_optional hargs
    loader := heldWithin_of_optional hloader
    children := itemsWithin_of_defaulting [] hchildren (hchild held)
    options := itemsWithin_of_defaulting [] hoptions fun _ _ => optionWithin_of_decodeOption }

/-- The fields of a sound value are within the limits, if its sound parts are. -/
theorem fieldsWithin_of_isSound (hsound : value.isSound levels = true)
    (hchild : ∀ value, 0 < levels - 1 → value.isSound (levels - 2) = true → within value)
    (hfields : fields? Record.command.names value = some field) :
    FieldsWithin within levels field := by
  obtain ⟨-, hparts⟩ := isSound_fields hsound hfields
  have hitems : ∀ name items, field name = some (.array items) → 0 < levels - 1 ∧
      ∀ item ∈ items, item.isSound (levels - 2) = true := fun name items hitems =>
    isSound_array_iff.mp (hparts name _ hitems)
  exact {
    names := hparts "name"
    args := hparts "args"
    loader := hparts "loadSpec"
    children := fun items h => ⟨(hitems _ items h).1, fun item hmem =>
      hchild item (hitems _ items h).1 ((hitems _ items h).2 item hmem)⟩
    options := fun items h => ⟨(hitems _ items h).1, fun item hmem =>
      optionWithin_of_isSound ((hitems _ items h).2 item hmem)⟩ }

/-- Soundness is more than is asked of a document: it is asked of all of it, and limits only of what
is read. By recursion on the levels, two at a time, since a command and its list of children take
one each. -/
theorem nodeWithin_of_isSound : ∀ {levels : Nat} {value : Value}, value.isSound levels = true →
    NodeWithin levels value
  | 0, value, h => by
    cases hfields : fields? Record.command.names value with
    | none => exact hfields
    | some field => exact absurd (isSound_fields h hfields).1 (Nat.lt_irrefl 0)
  | 1, value, h => fun field hfields =>
    fieldsWithin_of_isSound h (fun _ hlevels => absurd hlevels (Nat.lt_irrefl 0)) hfields
  | levels + 2, value, h => fun field hfields =>
    fieldsWithin_of_isSound h (fun _ _ => nodeWithin_of_isSound) hfields

/-- Within the limits a document is decoded as it is read, level by level. -/
theorem decodeNode_of_within : ∀ {levels : Nat} (held : Bool) (value : Value),
    NodeWithin levels value → decodeNode levels held value = readNode levels held value
  | 0, _, _, _ => rfl
  -- On the last level there is no list, so nothing is nested that could differ.
  | 1, _, _, h => decodeNodeWith_of_within (fun _ _ hfalse => hfalse.elim)
    (fun _ hlevels => absurd hlevels (Nat.lt_irrefl 0)) h
  | _ + 2, _, _, h =>
    decodeNodeWith_of_within decodeNode_of_within (fun _ _ => nodeWithin_of_isSound) h

/-- What was decoded is within the limits, level by level. -/
theorem nodeWithin_of_decodeNode : ∀ {levels : Nat} (held : Bool) (value : Value) (node : Grammar),
    decodeNode levels held value = some node → NodeWithin levels value
  | 0, _, _, _, h => nomatch h
  | 1, _, _, _, h => by
    intro field hfields
    refine fieldsWithin_of_decodeNodeWith ?_ h hfields
    intro _ _ _ hnone
    cases hnone
  | _ + 2, _, _, _, h => fun _ => fieldsWithin_of_decodeNodeWith nodeWithin_of_decodeNode h

/-- **A document is decoded if it can be read and is within the limits**, and then what was read is
the grammar (specification, § E2.1). Either half is proved by recursion on the levels, with
soundness for what a loader carries. -/
theorem decodeNode_eq_some_iff {node : Grammar} : decodeNode levels held value = some node ↔
    NodeWithin levels value ∧ readNode levels held value = some node := by
  constructor
  · intro h
    have hwithin := nodeWithin_of_decodeNode held value node h
    exact ⟨hwithin, decodeNode_of_within held value hwithin ▸ h⟩
  · rintro ⟨hwithin, h⟩
    rw [decodeNode_of_within held value hwithin, h]

end Commands

end Document

end CommandCompletion
