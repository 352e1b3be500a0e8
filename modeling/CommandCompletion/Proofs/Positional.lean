/-
Positional words fill the slots of a node in order.

A word that is no option and resolves to no child is a value for the slot that is
next. A slot takes one word, a variadic slot takes all that come, and when the
last slot is filled the next word begins with the first one again. `leftAfter`
follows the slots alone, one word after the other, and `leftAfter_eq` and
`leftAfter_variadic` say in closed form what is left of them after `n` words.

The walk keeps step with it (`Filling`): before a word it may have to leave a
list that is used up and begin anew, and it may look the word up as a child once
or twice, but the word ends up as the value of the slot that is next. So
`locate_positional` names the place after any number of words.

That no word resolves to a child is meant of the lookups that are made on the
way. Each leaves something behind, and a word at a slot that has to be filled is
not looked up at all; `Missed` allows for both.
-/
import CommandCompletion.Proofs.Progress

set_option autoImplicit false

namespace CommandCompletion

/-! ## The slots alone -/

namespace Slot

/-- What is left of the slots once the first has taken a word, and whether the
first of what is left has taken a word. -/
def takeWord : List Slot → List Slot × Bool
  | [] => ([], false)
  | slot :: rest => if slot.isVariadic then (slot :: rest, true) else (rest, false)

/-- What is left of the slots after `n` words. With none left, the next word begins with the first
slot, as it does before any word: exhausted arguments go back to the command (specification, § 4.3,
step 1 of `matchArgument`), and from there the next word enters them again. -/
def leftAfter (slots : List Slot) : Nat → List Slot × Bool
  | 0 => ([], false)
  | n + 1 =>
    match (leftAfter slots n).1 with
    | [] => takeWord slots
    | slot :: rest => takeWord (slot :: rest)

/-- No slot in front of the first variadic one takes a command. What comes behind a variadic slot is
never reached, so nothing has to be asked of it. -/
def TakeValues (slots : List Slot) : Prop :=
  ∀ slot ∈ slots.takeWhile (fun slot => !slot.isVariadic), slot.isCommand = false

variable {slots rest : List Slot} {slot : Slot} {n v : Nat}

theorem takeWord_of_variadic (h : slot.isVariadic = true) :
    takeWord (slot :: rest) = (slot :: rest, true) := by
  rw [takeWord, if_pos h]

theorem takeWord_of_single (h : slot.isVariadic = false) :
    takeWord (slot :: rest) = (rest, false) := by
  rw [takeWord, h]
  rfl

theorem leftAfter_succ_of_nil (h : (leftAfter slots n).1 = []) :
    leftAfter slots (n + 1) = takeWord slots := by
  rw [leftAfter, h]

theorem leftAfter_succ_of_ne_nil (h : (leftAfter slots n).1 ≠ []) :
    leftAfter slots (n + 1) = takeWord (leftAfter slots n).1 := by
  rw [leftAfter]
  split
  · rename_i hnil
    exact absurd hnil h
  · rename_i hcons
    rw [hcons]

/-- The next place on the circle of slots: nothing is left behind the last one. -/
theorem drop_mod_succ (hslots : slots ≠ []) (n : Nat) :
    (if (n + 1) % slots.length = 0 then [] else slots.drop ((n + 1) % slots.length)) =
      slots.drop (n % slots.length + 1) := by
  have hlt : n % slots.length < slots.length := Nat.mod_lt n (List.length_pos_iff.mpr hslots)
  rw [← Nat.mod_add_mod n slots.length 1]
  by_cases hlast : n % slots.length + 1 = slots.length
  · rw [hlast, Nat.mod_self, if_pos rfl, List.drop_length]
  · rw [Nat.mod_eq_of_lt (by omega), if_neg (Nat.succ_ne_zero _)]

/-- **Slots that take one word each are filled in turn, over and over.** By induction on the number
of words: the place on the circle moves on by one (`drop_mod_succ`). -/
theorem leftAfter_eq (hslots : slots ≠ []) (hsingle : ∀ slot ∈ slots, slot.isVariadic = false)
    (n : Nat) :
    leftAfter slots n =
      (if n % slots.length = 0 then [] else slots.drop (n % slots.length), false) := by
  have htake : ∀ i, i < slots.length → takeWord (slots.drop i) = (slots.drop (i + 1), false) := by
    intro i hi
    rw [List.drop_eq_getElem_cons hi]
    exact takeWord_of_single (hsingle _ (List.getElem_mem hi))
  have hpos : 0 < slots.length := List.length_pos_iff.mpr hslots
  induction n with
  | zero => simp [leftAfter]
  | succ n ih =>
    rw [drop_mod_succ hslots]
    by_cases hfull : n % slots.length = 0
    · -- The list is used up, and the word goes to the first slot again.
      rw [if_pos hfull] at ih
      rw [leftAfter_succ_of_nil (by rw [ih]), hfull]
      exact htake 0 hpos
    · have hlt : n % slots.length < slots.length := Nat.mod_lt n hpos
      have hleft : slots.drop (n % slots.length) ≠ [] := by
        rw [List.drop_eq_getElem_cons hlt]
        exact List.cons_ne_nil _ _
      rw [if_neg hfull] at ih
      rw [leftAfter_succ_of_ne_nil (by rw [ih]; exact hleft), ih]
      exact htake _ hlt

/-- **A variadic slot is reached in turn, and never left**, whatever stands behind it. Up to its
index this is the induction of `leftAfter_eq`; from there on nothing changes. -/
theorem leftAfter_variadic (hv : slots.findIdx? (fun slot => slot.isVariadic) = some v)
    (hn : 0 < n) :
    leftAfter slots n = if n ≤ v then (slots.drop n, false) else (slots.drop v, true) := by
  obtain ⟨hlt, hvariadic, hbefore⟩ := List.findIdx?_eq_some_iff_getElem.mp hv
  have hleft : ∀ i, i ≤ v → slots.drop i ≠ [] := by
    intro i hi
    rw [List.drop_eq_getElem_cons (by omega)]
    exact List.cons_ne_nil _ _
  have htake : ∀ i, i ≤ v → takeWord (slots.drop i) =
      if i + 1 ≤ v then (slots.drop (i + 1), false) else (slots.drop v, true) := by
    intro i hi
    -- The slot at `v` keeps its place, every one before it gives it up.
    by_cases hlast : i = v
    · subst hlast
      rw [List.drop_eq_getElem_cons hlt, takeWord_of_variadic hvariadic, if_neg (by omega)]
    · have hsingle : slots[i].isVariadic = false := by simpa using hbefore i (by omega)
      rw [List.drop_eq_getElem_cons (by omega), takeWord_of_single hsingle, if_pos (by omega)]
  induction n with
  | zero => omega
  | succ n ih =>
    rcases Nat.eq_zero_or_pos n with rfl | hpos
    · rw [leftAfter_succ_of_nil rfl]
      exact htake 0 (Nat.zero_le v)
    · have ih := ih hpos
      by_cases hn : n ≤ v
      · rw [if_pos hn] at ih
        rw [leftAfter_succ_of_ne_nil (by rw [ih]; exact hleft n hn), ih]
        exact htake n hn
      · rw [if_neg hn] at ih
        rw [leftAfter_succ_of_ne_nil (by rw [ih]; exact hleft v (Nat.le_refl v)), ih,
          htake v (Nat.le_refl v), if_neg (by omega), if_neg (by omega)]

theorem TakeValues.front (h : TakeValues (slot :: rest)) (hsingle : slot.isVariadic = false) :
    slot.isCommand = false := by
  refine h slot ?_
  rw [List.takeWhile_cons_of_pos (by rw [hsingle]; rfl)]
  exact List.mem_cons_self

/-- What is left after a word takes no command either. -/
theorem TakeValues.takeWord (h : TakeValues slots) : TakeValues (Slot.takeWord slots).1 := by
  cases slots with
  | nil => exact h
  | cons slot rest =>
    by_cases hvariadic : slot.isVariadic = true
    · rw [takeWord_of_variadic hvariadic]
      exact h
    · have hsingle : slot.isVariadic = false := by simpa using hvariadic
      rw [takeWord_of_single hsingle]
      intro other hother
      refine h other ?_
      rw [List.takeWhile_cons_of_pos (by rw [hsingle]; rfl)]
      exact List.mem_cons_of_mem _ hother

theorem TakeValues.leftAfter (h : TakeValues slots) (n : Nat) :
    TakeValues (Slot.leftAfter slots n).1 := by
  induction n with
  | zero =>
    intro slot hslot
    cases hslot
  | succ n ih =>
    by_cases hleft : (Slot.leftAfter slots n).1 = []
    · rw [leftAfter_succ_of_nil hleft]
      exact h.takeWord
    · rw [leftAfter_succ_of_ne_nil hleft]
      exact ih.takeWord

end Slot

/-! ## One word -/

namespace Walk

variable {σ : Type} {catalog : Catalog σ} {directory : String} {shell : Shell}
variable {memory middle after : Memory σ} {walk : Walk} {word : Word} {rest : List Word}
variable {slot : Slot} {slots : List Slot} {fromVariadic : Bool}

/-- The walk with its next word as the value of the first of these slots. -/
def takeFor (walk : Walk) (slots : List Slot) : Walk :=
  { walk.take false with
    stage := .arguments (Slot.takeWord slots).1 false (Slot.takeWord slots).2 false }

/-- Where the walk stood before does not matter then. -/
theorem takeFor_stage (stage : Stage) :
    Walk.takeFor { walk with stage := stage } slots = walk.takeFor slots := by
  obtain ⟨words, node, inherited, accepted, before⟩ := walk
  cases words <;> rfl

/-- At a slot that takes a value, a word that is no child becomes its value, whether it was looked
up or not. What is remembered afterwards is one of two things, and which of them does not matter
later. -/
theorem reaches_of_slot
    (hstage : walk.stage = .arguments (slot :: slots) false fromVariadic false)
    (hwords : walk.words = word :: rest) (hcomplete : word.complete = true)
    (hplain : word.isOption = false)
    (hmissed : (catalog.resolveChild walk.node word.text).run memory = (none, after))
    (hvalues : Slot.TakeValues (slot :: slots)) :
    ∃ turns last, Reaches catalog memory walk turns (walk.takeFor (slot :: slots)) last ∧
      (last = memory ∨ last = after) := by
  obtain ⟨last, hpasses, hlast⟩ : ∃ last, Passes catalog memory walk word last ∧
      (last = memory ∨ last = after) := by
    by_cases hopen : walk.isOpen = true
    · exact ⟨after, .missed hopen hplain hmissed, .inr rfl⟩
    · exact ⟨memory, .shut (by simpa using hopen), .inl rfl⟩
  unfold takeFor
  by_cases hvariadic : slot.isVariadic = true
  · rw [Slot.takeWord_of_variadic hvariadic]
    exact ⟨_, last, .go (.repeatSlot hstage hwords hcomplete hpasses hvariadic) (.here _ _), hlast⟩
  · have hsingle : slot.isVariadic = false := by simpa using hvariadic
    rw [Slot.takeWord_of_single hsingle]
    exact ⟨_, last, .go (.fillSlot hstage hwords hcomplete hpasses hsingle (hvalues.front hsingle))
      (.here _ _), hlast⟩

/-- At a command, a word that is no child becomes the value of the first slot.
The first slot may be one at which it is looked up again; nothing new is learnt. -/
theorem reaches_of_command {argsExhausted argsUsed : Bool}
    (hstage : walk.stage = .command argsExhausted argsUsed)
    (hwords : walk.words = word :: rest) (hcomplete : word.complete = true)
    (hplain : word.isOption = false)
    (hmissed : (catalog.resolveChild walk.node word.text).run memory = (none, after))
    (hargs : walk.node.args ≠ []) (hvalues : Slot.TakeValues walk.node.args) :
    ∃ turns, Reaches catalog memory walk turns (walk.takeFor walk.node.args) after := by
  have hopen : walk.isOpen = true := by simp only [isOpen, hstage]
  have hbegin : Goes catalog memory walk .beginArguments after :=
    .beginArguments hstage hwords hcomplete (.missed hopen hplain hmissed) hargs
  have hagain : (catalog.resolveChild walk.node word.text).run after = (none, after) :=
    Catalog.resolveChild_replay hmissed (.refl after)
  obtain ⟨slot, slots, hslots⟩ := List.exists_cons_of_ne_nil hargs
  have hbegun : (walk.perform .beginArguments).stage = .arguments (slot :: slots) false false false := by
    rw [← hslots]
    rfl
  have hfront : Slot.TakeValues (slot :: slots) := hslots ▸ hvalues
  obtain ⟨turns, last, hreaches, hlast⟩ :=
    reaches_of_slot hbegun hwords hcomplete hplain hagain hfront
  obtain rfl : last = after := hlast.elim id id
  have hsame : (walk.perform .beginArguments).takeFor (slot :: slots) =
      walk.takeFor walk.node.args := by
    rw [hslots]
    exact takeFor_stage _
  rw [hsame] at hreaches
  exact ⟨_, .go hbegin hreaches⟩

/-! ## Many words -/

/-- None of the words resolves to a child of the node when it is looked up, whether or not those
before it were looked up. A word is looked up where all slots that are left may be skipped, so which
words are depends on the slots; saying it for both cases keeps that out of the statement. -/
def Missed (catalog : Catalog σ) (node : CatalogNode) : List Word → Memory σ → Prop
  | [], _ => True
  | word :: words, memory =>
    ∃ after, (catalog.resolveChild node word.text).run memory = (none, after) ∧
      Missed catalog node words memory ∧ Missed catalog node words after

/-- The walk stands on the node `here`, has taken the words `taken` as values for its slots, and has
the words `front` in front. What it stands at is a function of how many words were taken, and this
is the invariant that carries the run. -/
structure Filling (here : CatalogNode) (taken front : List Word) (walk : Walk) : Prop where
  words : walk.words = front
  node : walk.node = here
  inherited : walk.inherited = []
  accepted : walk.accepted = taken
  /-- Nothing is taken before the walk stands at a slot. -/
  stage : walk.stage = .command false false ∧ taken = [] ∨
    taken ≠ [] ∧ walk.stage = .arguments (Slot.leftAfter here.args taken.length).1 false
      (Slot.leftAfter here.args taken.length).2 false

variable {node : CatalogNode} {taken words : List Word}

theorem Filling.takeFor (h : Filling node taken (word :: words) walk)
    (hslots : Slot.leftAfter node.args (taken.length + 1) = Slot.takeWord slots) :
    Filling node (taken ++ [word]) words (walk.takeFor slots) := by
  obtain ⟨hwords, hnode, hinherited, haccepted, -⟩ := h
  have htake : walk.take false =
      { walk with words := words, accepted := walk.accepted ++ [word] } := by
    rw [take, hwords]
    rfl
  refine ⟨?_, ?_, ?_, ?_, .inr ⟨by simp, ?_⟩⟩
  · simp only [Walk.takeFor, htake]
  · simp only [Walk.takeFor, htake, hnode]
  · simp only [Walk.takeFor, htake, hinherited]
  · simp only [Walk.takeFor, htake, haccepted]
  · simp only [Walk.takeFor, List.length_append, List.length_singleton, hslots]

/-- **A word that is neither an option nor a child becomes the value of the slot that is next**, the
first one if none is left. In the last case the walk goes back to the command and begins the
arguments anew, which costs it two more turns and, at most, one more look at the same child. -/
theorem Filling.step (h : Filling node taken (word :: words) walk)
    (hargs : node.args ≠ []) (hvalues : Slot.TakeValues node.args)
    (hcomplete : word.complete = true) (hplain : word.isOption = false)
    (hmissed : (catalog.resolveChild node word.text).run memory = (none, after)) :
    ∃ turns next last, Reaches catalog memory walk turns next last ∧
      Filling node (taken ++ [word]) words next ∧ (last = memory ∨ last = after) := by
  have hnode := h.node
  rcases h.stage with ⟨hstage, rfl⟩ | ⟨-, hstage⟩
  · obtain ⟨turns, hreaches⟩ := reaches_of_command hstage h.words hcomplete hplain
      (by rw [hnode]; exact hmissed) (by rw [hnode]; exact hargs) (by rw [hnode]; exact hvalues)
    refine ⟨turns, _, after, hreaches, h.takeFor ?_, .inr rfl⟩
    rw [hnode]
    exact Slot.leftAfter_succ_of_nil rfl
  · cases hleft : (Slot.leftAfter node.args taken.length).1 with
    | nil =>
      rw [hleft] at hstage
      have hend : Goes catalog memory walk (.endArguments false) memory := .endArguments hstage
      have hwords : (walk.perform (.endArguments false)).words = word :: words := h.words
      have hback : (walk.perform (.endArguments false)).stage = .command true true := rfl
      obtain ⟨turns, hreaches⟩ := reaches_of_command hback hwords hcomplete hplain
        (by rw [perform, hnode]; exact hmissed)
        (by rw [perform, hnode]; exact hargs) (by rw [perform, hnode]; exact hvalues)
      -- Leaving the list and beginning anew changes the stage only, and taking the word sets
      -- that.
      have hsame : (walk.perform (.endArguments false)).takeFor
          (walk.perform (.endArguments false)).node.args = walk.takeFor node.args := by
        rw [← hnode]
        exact takeFor_stage _
      rw [hsame] at hreaches
      exact ⟨_, _, after, .go hend hreaches, h.takeFor (Slot.leftAfter_succ_of_nil hleft), .inr rfl⟩
    | cons slot slots =>
      have hcons : (Slot.leftAfter node.args taken.length).1 ≠ [] := by
        rw [hleft]
        exact List.cons_ne_nil _ _
      have hfront := hvalues.leftAfter taken.length
      rw [hleft] at hstage hfront
      obtain ⟨turns, last, hreaches, hlast⟩ := reaches_of_slot hstage h.words hcomplete hplain
        (by rw [hnode]; exact hmissed) hfront
      refine ⟨turns, _, last, hreaches, h.takeFor ?_, hlast⟩
      rw [Slot.leftAfter_succ_of_ne_nil hcons, hleft]

/-- **Any number of such words are taken, one after the other.** Induction on the words, with what
was taken, the walk and its memory general; `Missed` is said of both memories a step can leave. -/
theorem Filling.run {more : List Word} (h : Filling node taken (words ++ more) walk)
    (hargs : node.args ≠ []) (hvalues : Slot.TakeValues node.args)
    (hcomplete : ∀ word ∈ words, word.complete = true)
    (hplain : ∀ word ∈ words, word.isOption = false)
    (hmissed : Missed catalog node words memory) :
    ∃ turns next last, Reaches catalog memory walk turns next last ∧
      Filling node (taken ++ words) more next := by
  induction words generalizing memory walk taken with
  | nil => exact ⟨[], walk, memory, .here memory walk, by rw [List.append_nil]; exact h⟩
  | cons word words ih =>
    obtain ⟨after, hword, hskipped, hasked⟩ := hmissed
    obtain ⟨turns, next, middle, hreaches, hnext, hmiddle⟩ := h.step hargs hvalues
      (hcomplete word List.mem_cons_self) (hplain word List.mem_cons_self) hword
    have hrest : Missed catalog node words middle := by
      rcases hmiddle with rfl | rfl
      · exact hskipped
      · exact hasked
    obtain ⟨turns', last, final, hreaches', hlast⟩ := ih hnext
      (fun other hother => hcomplete other (List.mem_cons_of_mem _ hother))
      (fun other hother => hplain other (List.mem_cons_of_mem _ hother)) hrest
    rw [List.append_assoc, List.singleton_append] at hlast
    exact ⟨_, last, final, hreaches.trans hreaches', hlast⟩

end Walk

/-! ## The place after them -/

/-- A value for the slot with this index, where the slots from `next` on are still
to be filled. -/
def valueAt? (slots : List Slot) (index next : Nat) : Option Expected :=
  slots[index]?.map fun slot => .value slot ((slots.drop next).all fun slot => slot.isOptional)

/-- What may come after `n` values: up to a variadic slot each takes one, the
variadic slot takes all that follow, and without one the slots are filled over
and over. -/
def expectedAfter? (slots : List Slot) (n : Nat) : Option Expected :=
  if n = 0 then some (.anything false false)
  else
    match slots.findIdx? fun slot => slot.isVariadic with
    | some v => if n ≤ v then valueAt? slots n n else valueAt? slots v (v + 1)
    | none =>
      if n % slots.length = 0 then some (.anything true true)
      else valueAt? slots (n % slots.length) (n % slots.length)

namespace Walk

variable {σ : Type} {catalog : Catalog σ} {directory : String} {shell : Shell}
variable {memory : Memory σ} {walk : Walk} {node : CatalogNode}
variable {taken : List Word} {current : Word} {slots : List Slot} {n v : Nat}

/-- What a walk waits for where these slots are left: a list that is used up is
left first. -/
def expectedOf : List Slot × Bool → Expected
  | ([], _) => .anything true true
  | (slot :: rest, fromVariadic) => .value slot (allOptional (slot :: rest) fromVariadic)

/-- At the slot with index `n`, of which no word was taken yet. -/
theorem expectedOf_drop (hn : n < slots.length) :
    valueAt? slots n n = some (expectedOf (slots.drop n, false)) := by
  have hfront : allOptional (slots.drop n) false = (slots.drop n).all fun slot => slot.isOptional := by
    rw [List.drop_eq_getElem_cons hn]
    simp only [allOptional, Bool.and_false, Bool.or_false, List.all_cons]
  rw [valueAt?, List.getElem?_eq_getElem hn, ← hfront, List.drop_eq_getElem_cons hn]
  rfl

/-- At a variadic slot that has taken a word. -/
theorem expectedOf_variadic (hv : v < slots.length) (hvariadic : slots[v].isVariadic = true) :
    valueAt? slots v (v + 1) = some (expectedOf (slots.drop v, true)) := by
  rw [valueAt?, List.getElem?_eq_getElem hv, List.drop_eq_getElem_cons hv]
  simp [expectedOf, allOptional, hvariadic]

/-- **What is left of the slots after `n` words says what may come next.** The closed form and the
recursion meet here: each of its cases is one of the two lemmas on `leftAfter`. -/
theorem expectedAfter?_eq (hslots : slots ≠ []) (hn : 0 < n) :
    expectedAfter? slots n = some (expectedOf (Slot.leftAfter slots n)) := by
  rw [expectedAfter?, if_neg (by omega)]
  split
  · rename_i v hv
    obtain ⟨hlt, hvariadic, -⟩ := List.findIdx?_eq_some_iff_getElem.mp hv
    rw [Slot.leftAfter_variadic hv hn]
    by_cases hle : n ≤ v
    · rw [if_pos hle, if_pos hle]
      exact expectedOf_drop (by omega)
    · rw [if_neg hle, if_neg hle]
      exact expectedOf_variadic hlt hvariadic
  · rename_i hnone
    have hsingle : ∀ slot ∈ slots, slot.isVariadic = false := by
      simpa using List.findIdx?_eq_none_iff.mp hnone
    rw [Slot.leftAfter_eq hslots hsingle]
    by_cases hfull : n % slots.length = 0
    · rw [if_pos hfull, if_pos hfull]
      rfl
    · rw [if_neg hfull, if_neg hfull]
      exact expectedOf_drop (Nat.mod_lt n (List.length_pos_iff.mpr hslots))

/-- With a word in progress in front, a walk that has taken values arrives. -/
theorem Filling.arrives (h : Filling node taken [current] walk) (catalog : Catalog σ)
    (memory : Memory σ) (hargs : node.args ≠ []) (hcurrent : current.complete = false) :
    ∃ expected turns last, expectedAfter? node.args taken.length = some expected ∧
      Reaches catalog memory walk turns last memory ∧
      last.Arrives directory shell {
        expected := expected
        node := node
        current := some current
        accepted := taken
        directory := directory
        shell := shell } := by
  obtain ⟨hwords, hnode, hinherited, haccepted, hstage⟩ := h
  have hwaits : ∀ word ∈ walk.words.head?, word.complete = false := by
    intro word hword
    rw [hwords] at hword
    cases hword
    exact hcurrent
  have hcontext : ∀ expected, walk.context directory shell expected = {
      expected := expected
      node := node
      current := some current
      accepted := taken
      directory := directory
      shell := shell } := by
    intro expected
    simp only [context, hwords, hnode, hinherited, haccepted, List.head?_cons]
  rcases hstage with ⟨hstage, rfl⟩ | ⟨htaken, hstage⟩
  · refine ⟨.anything false false, [], walk, rfl, .here memory walk, hwaits, _, ?_, (hcontext _).symm⟩
    rw [expected?, hstage]
  · have hexpected := expectedAfter?_eq hargs (List.length_pos_iff.mpr htaken)
    cases hleft : Slot.leftAfter node.args taken.length with
    | mk left fromVariadic =>
      rw [hleft] at hstage hexpected
      cases left with
      | nil =>
        -- The list is used up, and the walk goes back to the command.
        refine ⟨_, _, _, hexpected, .go (.endArguments hstage) (.here memory _), hwaits, _, rfl, ?_⟩
        exact (hcontext _).symm
      | cons slot rest =>
        refine ⟨_, [], walk, hexpected, .here memory walk, hwaits, _, ?_, (hcontext _).symm⟩
        rw [expected?, hstage]
        rfl

end Walk

namespace Catalog

variable {σ : Type}

/-- **Words that are neither options nor children fill the slots of a node in order.** However many
there are, the walk arrives: at the slot that `expectedAfter?` names, or where the slots are used
up; with all the words, in order, as those that still count. A variadic slot takes every word from
its place on (specification, § 8, seventh property). -/
theorem locate_positional (catalog : Catalog σ) (directory : String) (shell : Shell)
    (memory : Memory σ) (node : CatalogNode) (words : List Word) (current : Word)
    (hargs : node.args ≠ []) (hvalues : Slot.TakeValues node.args)
    (hcomplete : ∀ word ∈ words, word.complete = true)
    (hplain : ∀ word ∈ words, word.isOption = false)
    (hmissed : Walk.Missed catalog node words memory) (hcurrent : current.complete = false) :
    ∃ expected after, expectedAfter? node.args words.length = some expected ∧
      (catalog.locate directory shell (words ++ [current]) node).run memory =
        (.ok (some {
          expected := expected
          node := node
          inherited := []
          current := some current
          accepted := words
          directory := directory
          shell := shell }), after) := by
  have hstart : Walk.Filling node [] (words ++ [current])
      { words := words ++ [current], node := node } := ⟨rfl, rfl, rfl, rfl, .inl ⟨rfl, rfl⟩⟩
  obtain ⟨turns, filled, after, hreaches, hfilled⟩ :=
    hstart.run hargs hvalues hcomplete hplain hmissed
  obtain ⟨expected, more, last, hexpected, hend, harrives⟩ :=
    hfilled.arrives catalog after hargs hcurrent
  refine ⟨expected, after, hexpected, ?_⟩
  exact locate_eq_some_iff.mpr ⟨_, Walk.run_of_reaches (hreaches.trans hend) harrives⟩

/-! A command that copies: a source, any number of further ones, and where to. -/

/-- The slots of `copy`, whose second one is variadic, and a child that no
generator yields. -/
def copyNode : CatalogNode where
  id := 0
  names := ["copy"]
  args := [
    { name := "source" },
    { name := "more", isVariadic := true },
    { name := "target", isOptional := true }]
  children := [{ id := 1, names := ["all"], loader := some (.generator "missing") }]

/-- Knows no command and no generator. -/
def emptyCatalog : Catalog Unit where
  source := .ofEntries []
  probe := ⟨fun command _ => return .error (.probeNotStarted command "no commands")⟩

/-- After `a all b` the variadic slot waits for more, and the slot behind it may be
skipped. The word `all` names a child, but one that comes to nothing. -/
theorem locate_positional_copy :
    (∀ slot ∈ copyNode.args.takeWhile (fun slot => !slot.isVariadic), slot.isCommand = false) ∧
    ∃ after, (emptyCatalog.locate "/w" .bash
        [.ofText "a" true, .ofText "all" true, .ofText "b" true, .ofText "c" false] copyNode).run
      (emptyCatalog.initialMemory ()) = (.ok (some {
        expected := .value { name := "more", isVariadic := true } true
        node := copyNode
        current := some (.ofText "c" false)
        accepted := [.ofText "a" true, .ofText "all" true, .ofText "b" true]
        directory := "/w"
        shell := .bash }), after) := by
  have hvalues : Slot.TakeValues copyNode.args := by
    unfold Slot.TakeValues
    decide
  refine ⟨hvalues, ?_⟩
  obtain ⟨expected, after, hexpected, hlocate⟩ := locate_positional emptyCatalog "/w" .bash
    (emptyCatalog.initialMemory ()) copyNode [.ofText "a" true, .ofText "all" true, .ofText "b" true]
    (.ofText "c" false) (by decide) hvalues (by decide) (by decide)
    ⟨_, rfl, ⟨_, rfl, ⟨_, rfl, trivial, trivial⟩, ⟨_, rfl, trivial, trivial⟩⟩,
      ⟨_, rfl, ⟨_, rfl, trivial, trivial⟩, ⟨_, rfl, trivial, trivial⟩⟩⟩ rfl
  cases hexpected
  exact ⟨after, hlocate⟩

end Catalog

end CommandCompletion
