/-
What a command lists, read as children.

A generator that runs a command reads a child off each line of the output: its name,
and behind a tab its description. `Lists commands text` says that `text` puts these
commands down, one to a line, with blanks around the fields and with lines in between
that name nothing. Reading such a text gives back the commands (`fragmentOfOutput_of_lists`),
and there is no text that lists nothing at all of this kind (`exists_lists`), so what is
read of any output are children with sound names.

A command that fails lists nothing, and a deferred node that waits for it is left as it
is (`resolve_of_failed`).
-/
import CommandCompletion.Catalog
import CommandCompletion.Proofs.Remembering
import CommandCompletion.Proofs.Trimming

set_option autoImplicit false

namespace CommandCompletion.Generator

/-! ## Listings -/

/-- A text that can be read off a line: there is something to it, there is nothing around it that
trimming would take away, and none of its characters would end it. -/
structure IsField (ends : List Char) (text : String) : Prop where
  ne_empty : text ≠ ""
  bare : Text.Bare Text.isBlank text.toList
  within : ∀ c ∈ text.toList, c ∉ ends

/-- A command that can be listed: its name ends at a tab or the end of the line, its description at
the end of the line. -/
structure ListedCommand where
  name : String
  description : Option String := none
  name_isField : IsField ['\t', '\n'] name
  description_isField : ∀ text ∈ description, IsField ['\n'] text

/-- The child that stands for it. -/
def ListedCommand.child (command : ListedCommand) : Grammar where
  id := ()
  names := [command.name]
  description := command.description

/-- The text with blanks around it, as many as there may be on either side. -/
def Padded (text : String) (cs : List Char) : Prop :=
  ∃ before after, cs = before ++ text.toList ++ after ∧
    (∀ c ∈ before, Text.isBlank c = true) ∧ ∀ c ∈ after, Text.isBlank c = true

/-- What a line can look like, and which command it lists (specification, § E2.4). The four kinds
are all there are, as `exists_lineOf` shows. -/
inductive LineOf : Option ListedCommand → List Char → Prop where
  /-- A name alone. -/
  | named {command : ListedCommand} {front : List Char} (hfront : ∀ c ∈ front, c ∉ ['\t', '\n'])
      (hname : Padded command.name front) (hnone : command.description = none) :
      LineOf (some command) front
  /-- A name, and a description or nothing but blanks behind the tab. -/
  | described {command : ListedCommand} {front back : List Char}
      (hfront : ∀ c ∈ front, c ∉ ['\t', '\n']) (hback : ∀ c ∈ back, c ∉ ['\n'])
      (hname : Padded command.name front) (htext : Padded (command.description.getD "") back) :
      LineOf (some command) (front ++ '\t' :: back)
  | blank {front : List Char} (hfront : ∀ c ∈ front, c ∉ ['\t', '\n']) (hname : Padded "" front) :
      LineOf none front
  /-- Whatever stands behind the tab, there is no name to it. -/
  | nameless {front back : List Char} (hfront : ∀ c ∈ front, c ∉ ['\t', '\n'])
      (hback : ∀ c ∈ back, c ∉ ['\n']) (hname : Padded "" front) :
      LineOf none (front ++ '\t' :: back)

/-- How a line ends if another one follows: by a line feed, alone or with a carriage return before
it. -/
inductive LineEnd : List Char → Prop where
  | lf : LineEnd ['\n']
  | crlf : LineEnd ['\r', '\n']

/-- The text lists these commands, in this order. The last line needs no end, and may be empty. -/
inductive Lists : List ListedCommand → List Char → Prop where
  | last {command? : Option ListedCommand} {line : List Char} (hline : LineOf command? line) :
      Lists command?.toList line
  | line {command? : Option ListedCommand} {commands : List ListedCommand}
      {line ending rest : List Char} (hline : LineOf command? line) (hend : LineEnd ending)
      (hrest : Lists commands rest) :
      Lists (command?.toList ++ commands) (line ++ ending ++ rest)

/-! ## The parts of a line -/

variable {front back line cs : List Char} {text : String} {ends : List Char}

/-- Without a tab the line is the name. -/
theorem splitAtTab_of_noTab (hfront : ∀ c ∈ front, c ≠ '\t') :
    splitAtTab (String.ofList front) = (String.ofList front, none) := by
  have hall : ∀ c ∈ front, (c != '\t') = true := fun c hc => bne_iff_ne.mpr (hfront c hc)
  unfold splitAtTab
  rw [String.toList_ofList, ← List.append_nil front, List.takeWhile_append_of_pos hall,
    List.dropWhile_append_of_pos hall]
  rfl

/-- The first tab ends the name, and others belong to the description. -/
theorem splitAtTab_of_tab (hfront : ∀ c ∈ front, c ≠ '\t') (back : List Char) :
    splitAtTab (String.ofList (front ++ '\t' :: back)) =
      (String.ofList front, some (String.ofList back)) := by
  have hall : ∀ c ∈ front, (c != '\t') = true := fun c hc => bne_iff_ne.mpr (hfront c hc)
  unfold splitAtTab
  rw [String.toList_ofList, List.takeWhile_append_of_pos hall, List.dropWhile_append_of_pos hall,
    List.takeWhile_cons_of_neg (by decide), List.dropWhile_cons_of_neg (by decide),
    List.append_nil]
  rfl

/-- A line is a name alone, or has a first tab in it. -/
theorem noTab_or_exists_tab (cs : List Char) : (∀ c ∈ cs, c ≠ '\t') ∨
    ∃ front back, cs = front ++ '\t' :: back ∧ ∀ c ∈ front, c ≠ '\t' := by
  by_cases htab : '\t' ∈ cs
  · obtain ⟨front, back, hcs, hfront⟩ := List.eq_append_cons_of_mem htab
    exact .inr ⟨front, back, hcs, fun c hc heq => hfront (heq ▸ hc)⟩
  · exact .inl fun c hc heq => htab (heq ▸ hc)

/-! ## Reading a line -/

/-- Trimming a text is stripping the blanks off its ends. -/
theorem toList_trim (cs : List Char) :
    (Text.trim (String.ofList cs)).toList = Text.strip Text.isBlank cs := by
  show (String.ofList (Text.strip Text.isBlank (String.ofList cs).toList)).toList = _
  rw [String.toList_ofList, String.toList_ofList]

/-- A bare text is found again between its blanks. -/
theorem trim_of_padded (hpadded : Padded text cs) (hbare : Text.Bare Text.isBlank text.toList) :
    Text.trim (String.ofList cs) = text := by
  apply String.toList_injective
  rw [toList_trim]
  exact Text.strip_eq_iff.mpr ⟨hbare, hpadded⟩

/-- What was trimmed off are blanks. -/
theorem padded_trim (cs : List Char) : Padded (Text.trim (String.ofList cs)) cs := by
  unfold Padded
  rw [toList_trim]
  exact Text.exists_around_strip Text.isBlank cs

/-- Nothing more can be trimmed off. -/
theorem bare_trim (cs : List Char) :
    Text.Bare Text.isBlank (Text.trim (String.ofList cs)).toList := by
  rw [toList_trim]
  exact Text.bare_strip Text.isBlank cs

/-- What is left of a part of a line is a field, unless nothing is: its characters are those of the
part. -/
theorem isField_trim (hends : ∀ c ∈ cs, c ∉ ends) (hne : Text.trim (String.ofList cs) ≠ "") :
    IsField ends (Text.trim (String.ofList cs)) := by
  obtain ⟨before, after, hcs, -, -⟩ := padded_trim cs
  refine ⟨hne, bare_trim cs, fun c hc => hends c ?_⟩
  rw [hcs]
  exact List.mem_append_left _ (List.mem_append_right _ hc)

/-- A carriage return at the end of a line is a blank like any other, of the name or of the
description. -/
theorem childOfLine?_append_return (cs : List Char) :
    childOfLine? (String.ofList (cs ++ ['\r'])) = childOfLine? (String.ofList cs) := by
  have hblank : ∀ cs, Text.trim (String.ofList (cs ++ ['\r'])) = Text.trim (String.ofList cs) := by
    intro cs
    obtain ⟨before, after, hcs, hbefore, hafter⟩ := padded_trim cs
    refine trim_of_padded ⟨before, after ++ ['\r'], ?_, hbefore, ?_⟩ (bare_trim cs)
    · rw [← List.append_assoc, ← hcs]
    · exact List.forall_mem_append.mpr ⟨hafter, List.forall_mem_singleton.mpr rfl⟩
  unfold childOfLine?
  rcases noTab_or_exists_tab cs with hnoTab | ⟨front, back, rfl, hfront⟩
  · have hreturn : ∀ c ∈ cs ++ ['\r'], c ≠ '\t' :=
      List.forall_mem_append.mpr ⟨hnoTab, List.forall_mem_singleton.mpr (by decide)⟩
    rw [splitAtTab_of_noTab hnoTab, splitAtTab_of_noTab hreturn]
    dsimp only
    rw [hblank]
  · rw [List.append_assoc, List.cons_append, splitAtTab_of_tab hfront, splitAtTab_of_tab hfront]
    dsimp only
    rw [Option.map_some, Option.map_some, hblank]

/-- There is a description if there is something to it, so an empty one is as good as none. -/
theorem filter_nonempty_getD (description : Option String) (h : ∀ text ∈ description, text ≠ "") :
    (some (description.getD "")).filter (fun text => !text.isEmpty) = description := by
  cases description with
  | none => rfl
  | some text =>
    have hne : text.isEmpty = false :=
      Bool.eq_false_iff.mpr fun hempty => h text rfl (String.isEmpty_iff.mp hempty)
    rw [Option.getD_some, Option.filter_some, hne]
    rfl

variable {command? : Option ListedCommand} {commands : List ListedCommand}

/-- Each kind of line is read as it is meant: the first two give a child, the others none. -/
theorem childOfLine?_of_lineOf (hline : LineOf command? line) :
    childOfLine? (String.ofList line) = command?.map ListedCommand.child := by
  have noTab : ∀ {front : List Char}, (∀ c ∈ front, c ∉ ['\t', '\n']) → ∀ c ∈ front, c ≠ '\t' :=
    fun h c hc heq => h c hc (heq ▸ List.mem_cons_self)
  have hnonempty : ∀ command : ListedCommand, command.name.isEmpty = false := fun command =>
    Bool.eq_false_iff.mpr fun hempty =>
      command.name_isField.ne_empty (String.isEmpty_iff.mp hempty)
  unfold childOfLine?
  cases hline with
  | @named command _ hfront hname hnone =>
    rw [splitAtTab_of_noTab (noTab hfront)]
    dsimp only
    rw [trim_of_padded hname command.name_isField.bare, hnonempty, if_neg Bool.false_ne_true]
    show _ = some command.child
    unfold ListedCommand.child
    rw [hnone]
    rfl
  | @described command front back hfront hback hname htext =>
    have hbare : Text.Bare Text.isBlank (command.description.getD "").toList := by
      cases hdescription : command.description with
      | none => exact Text.bare_nil
      | some text => exact (command.description_isField text hdescription).bare
    rw [splitAtTab_of_tab (noTab hfront)]
    dsimp only
    rw [trim_of_padded hname command.name_isField.bare, hnonempty, if_neg Bool.false_ne_true,
      Option.map_some, trim_of_padded htext hbare, filter_nonempty_getD _ fun text htext =>
        (command.description_isField text htext).ne_empty]
    rfl
  | blank hfront hname =>
    rw [splitAtTab_of_noTab (noTab hfront)]
    dsimp only
    rw [trim_of_padded hname Text.bare_nil]
    rfl
  | nameless hfront hback hname =>
    rw [splitAtTab_of_tab (noTab hfront)]
    dsimp only
    rw [trim_of_padded hname Text.bare_nil]
    rfl

theorem noNewline_of_lineOf (hline : LineOf command? line) : ∀ c ∈ line, (c == '\n') = false := by
  have newline : ∀ {ends : List Char} {cs : List Char}, '\n' ∈ ends → (∀ c ∈ cs, c ∉ ends) →
      ∀ c ∈ cs, (c == '\n') = false :=
    fun hmem h c hc => beq_eq_false_iff_ne.mpr fun heq => h c hc (heq ▸ hmem)
  have join : ∀ {front back : List Char}, (∀ c ∈ front, c ∉ ['\t', '\n']) →
      (∀ c ∈ back, c ∉ ['\n']) → ∀ c ∈ front ++ '\t' :: back, (c == '\n') = false := by
    intro front back hfront hback
    rw [List.forall_mem_append, List.forall_mem_cons]
    exact ⟨newline (by decide) hfront, rfl, newline (by decide) hback⟩
  cases hline with
  | named hfront => exact newline (by decide) hfront
  | described hfront hback => exact join hfront hback
  | blank hfront => exact newline (by decide) hfront
  | nameless hfront hback => exact join hfront hback

/-- Every line is of some kind: by whether it has a tab, whether there is a name before it, and
whether there is anything behind it. -/
theorem exists_lineOf (line : List Char) (hline : ∀ c ∈ line, c ∉ ['\n']) :
    ∃ command?, LineOf command? line := by
  have both : ∀ {front : List Char}, (∀ c ∈ front, c ≠ '\t') → (∀ c ∈ front, c ∉ ['\n']) →
      ∀ c ∈ front, c ∉ ['\t', '\n'] :=
    fun htab hnewline c hc hmem => (List.mem_cons.mp hmem).elim (htab c hc) (hnewline c hc)
  have noDescription : ∀ text ∈ (none : Option String), IsField ['\n'] text :=
    fun text htext => absurd htext (Option.not_mem_none text)
  rcases noTab_or_exists_tab line with hnoTab | ⟨front, back, rfl, hnoTab⟩
  · by_cases hname : Text.trim (String.ofList line) = ""
    · exact ⟨none, .blank (both hnoTab hline) (hname ▸ padded_trim line)⟩
    · have hfield := isField_trim (both hnoTab hline) hname
      exact ⟨some ⟨_, none, hfield, noDescription⟩, .named (both hnoTab hline) (padded_trim line) rfl⟩
  · obtain ⟨hfront, hback⟩ := List.forall_mem_append.mp hline
    replace hback := (List.forall_mem_cons.mp hback).2
    by_cases hname : Text.trim (String.ofList front) = ""
    · exact ⟨none, .nameless (both hnoTab hfront) hback (hname ▸ padded_trim front)⟩
    have hfield := isField_trim (both hnoTab hfront) hname
    by_cases htext : Text.trim (String.ofList back) = ""
    · have hblank : Padded "" back := htext ▸ padded_trim back
      exact ⟨some ⟨_, none, hfield, noDescription⟩,
        .described (both hnoTab hfront) hback (padded_trim front) hblank⟩
    · have htextField : ∀ text ∈ some (Text.trim (String.ofList back)), IsField ['\n'] text :=
        fun text hmem => Option.some.inj hmem ▸ isField_trim hback htext
      exact ⟨some ⟨_, some _, hfield, htextField⟩,
        .described (both hnoTab hfront) hback (padded_trim front) (padded_trim back)⟩

/-! ## Reading an output -/

/-- A text is read as what it lists, by induction on its lines. What stands between line feeds is a
line, or a line and a carriage return. -/
theorem filterMap_cutFrom (h : Lists commands cs) :
    ((Text.cutFrom (· == '\n') [] cs).map String.ofList).filterMap childOfLine? =
      commands.map ListedCommand.child := by
  have single : ∀ {command? : Option ListedCommand} {line : List Char}, LineOf command? line →
      [String.ofList line].filterMap childOfLine? =
        command?.toList.map ListedCommand.child := by
    intro command? line hline
    rw [List.filterMap_cons, childOfLine?_of_lineOf hline]
    cases command? <;> rfl
  induction h with
  | last hline =>
    rw [Text.cutFrom_of_forall [] (noNewline_of_lineOf hline)]
    exact single hline
  | @line command? commands line ending rest hline hend hrest ih =>
    -- What stands before the line feed is the line, possibly with a carriage return.
    obtain ⟨extra, rfl, hextra⟩ : ∃ extra, ending = extra ++ ['\n'] ∧
        (extra = [] ∨ extra = ['\r']) := by
      cases hend with
      | lf => exact ⟨[], rfl, .inl rfl⟩
      | crlf => exact ⟨['\r'], rfl, .inr rfl⟩
    have hfirst : ∀ c ∈ line ++ extra, (c == '\n') = false := by
      refine List.forall_mem_append.mpr ⟨noNewline_of_lineOf hline, ?_⟩
      rcases hextra with rfl | rfl
      · exact fun c hc => absurd hc List.not_mem_nil
      · exact List.forall_mem_singleton.mpr rfl
    have hread : [String.ofList (line ++ extra)].filterMap childOfLine? =
        command?.toList.map ListedCommand.child := by
      rw [← single hline]
      rcases hextra with rfl | rfl
      · rw [List.append_nil]
      · rw [List.filterMap_cons, List.filterMap_cons, childOfLine?_append_return]
    have htext : line ++ (extra ++ ['\n']) ++ rest = (line ++ extra) ++ '\n' :: rest := by
      simp only [List.append_assoc, List.singleton_append]
    rw [htext, Text.cutFrom_append_cons [] (line ++ extra) rest rfl,
      Text.cutFrom_of_forall [] hfirst, List.reverse_nil, List.nil_append, List.map_append,
      List.filterMap_append, List.map_singleton, hread, ih, List.map_append]

/-- Every text lists some commands, by the length of what is left behind the first line feed. -/
theorem exists_lists (cs : List Char) : ∃ commands, Lists commands cs := by
  -- By the length of what is left behind the first line feed.
  by_cases hnewline : '\n' ∈ cs
  · obtain ⟨line, rest, hcs, hline⟩ := List.eq_append_cons_of_mem hnewline
    have hshorter : rest.length < cs.length := by
      rw [hcs, List.length_append, List.length_cons]
      omega
    obtain ⟨commands, hrest⟩ := exists_lists rest
    obtain ⟨command?, hcommand⟩ := exists_lineOf line fun c hc hmem =>
      hline (List.mem_singleton.mp hmem ▸ hc)
    have hlists := Lists.line hcommand .lf hrest
    rw [List.append_assoc, List.singleton_append, ← hcs] at hlists
    exact ⟨_, hlists⟩
  · obtain ⟨command?, hcommand⟩ := exists_lineOf cs fun c hc hmem =>
      hnewline (List.mem_singleton.mp hmem ▸ hc)
    exact ⟨_, .last hcommand⟩
termination_by cs.length

variable {output : ProbeOutput}

/-- A command that succeeds gives a fragment whose children are the commands that its output lists,
in this order. -/
theorem fragmentOfOutput_of_lists (hsuccess : output.status = some 0)
    (hlists : Lists commands output.stdout.toList) :
    fragmentOfOutput output = { id := (), children := commands.map ListedCommand.child } := by
  have hsucceeded : output.succeeded = true := beq_iff_eq.mpr hsuccess
  unfold fragmentOfOutput
  rw [hsucceeded, if_pos rfl, Text.filterMap_lines rfl childOfLine?_append_return]
  exact congrArg (Node.mk () [] none · [] [] false none none) (filterMap_cutFrom hlists)

/-- One that fails gives an empty fragment, whatever it has written. -/
theorem fragmentOfOutput_of_failed (hfailed : output.status ≠ some 0) :
    fragmentOfOutput output = { id := () } := by
  have hsucceeded : output.succeeded = false := beq_eq_false_iff_ne.mpr hfailed
  unfold fragmentOfOutput
  rw [hsucceeded, if_neg Bool.false_ne_true]

/-- Whatever a command writes, the children have sound names, since every output lists some
commands. -/
theorem name_of_mem_fragmentOfOutput {child : Grammar}
    (hchild : child ∈ (fragmentOfOutput output).children) :
    ∃ name, child.names = [name] ∧ IsField ['\t', '\n'] name := by
  by_cases hsuccess : output.status = some 0
  · obtain ⟨commands, hlists⟩ := exists_lists output.stdout.toList
    rw [fragmentOfOutput_of_lists hsuccess hlists] at hchild
    obtain ⟨command, -, rfl⟩ := List.mem_map.mp hchild
    exact ⟨command.name, rfl, command.name_isField⟩
  · rw [fragmentOfOutput_of_failed hsuccess] at hchild
    exact absurd hchild List.not_mem_nil

/-! ## Generating -/

section Generating

variable {σ : Type} {probe : Probe σ} {command word : String} {args : List String}
variable {world world' : σ}

/-- What the probe leaves behind is what the generator reads, and nothing else is done outside. -/
theorem generate_ofCommand (hrun : (probe.run command args).run world = (.ok output, world')) :
    ((ofCommand command args).generate word probe).run world =
      (.ok (.fragment (fragmentOfOutput output)), world') := by
  show (StateT.run (probe.run command args >>= _) world : Id _) = _
  rw [StateT.run_bind, hrun]
  rfl

/-- Laying an empty fragment over a node changes nothing about it; only there is
nothing left to load. -/
theorem overlay_number_empty {next : Nat} (node : CatalogNode) :
    node.overlay (Node.number { id := () } next).1 = { node with id := next, loader := none } := by
  show node.overlay { id := next } = _
  rfl

/-- **A deferred node is left as it is** if the command it waits for fails. An empty fragment is
laid over it, under a new identity, and there is nothing left to load. -/
theorem resolve_of_failed {catalog : Catalog σ} {memory : Memory σ} {node : CatalogNode}
    {generator : String}
    (hrun : (probe.run command args).run memory.world = (.ok output, world'))
    (hfailed : output.status ≠ some 0) (hprobe : catalog.probe = probe)
    (hregistered : catalog.generators.lookup generator = some (ofCommand command args))
    (hloader : node.loader = some (.generator generator))
    (hdeferred : memory.outcomes.lookup node.id = none) :
    ((catalog.resolve node word).run memory).1 =
      some { node with id := memory.next, loader := none } := by
  have hgenerated : (catalog.generate? generator word).run memory.world =
      (some { id := () }, world') := by
    unfold Catalog.generate? Catalog.generator?
    rw [hregistered]
    dsimp only
    rw [hprobe]
    show (StateT.run ((ofCommand command args).generate word probe >>= _) memory.world : Id _) = _
    rw [StateT.run_bind, generate_ofCommand hrun, fragmentOfOutput_of_failed hfailed]
    rfl
  -- The fragment is empty, but it takes up an identity.
  have hfragment : (catalog.loadFragment word (.generator generator)).run memory =
      (some (Node.number { id := () } memory.next).1,
        { memory with world := world', next := (Node.number { id := () } memory.next).2 }) := by
    show (StateT.run (Recall.outside (catalog.generate? generator word) >>= _) memory : Id _) = _
    rw [Recall.run_bind_of (Recall.run_outside hgenerated)]
    rfl
  rw [Catalog.resolve_of_unknown hloader hdeferred hfragment, Option.map_some,
    overlay_number_empty]

/-- **What a command lists becomes the children, in order** (specification, § E2.4), if the command
succeeds, however its lines are laid out. Whatever it writes, each child has one name, and that is a
sound one. If the command ends in any other way, a deferred node that waits for it is left as it is.
The lines are read one by one, so the first two parts are facts about a line. -/
theorem ofCommand_lists (word : String)
    (hrun : (probe.run command args).run world = (.ok output, world')) :
    ∃ fragment : Grammar,
      ((ofCommand command args).generate word probe).run world =
        (.ok (.fragment fragment), world') ∧
      (output.status = some 0 → ∀ commands, Lists commands output.stdout.toList →
        fragment = { id := (), children := commands.map ListedCommand.child }) ∧
      (∀ child ∈ fragment.children, ∃ name, child.names = [name] ∧ IsField ['\t', '\n'] name) ∧
      (output.status ≠ some 0 →
        ∀ (catalog : Catalog σ) (memory : Memory σ) (node : CatalogNode) (generator : String),
          catalog.probe = probe →
          catalog.generators.lookup generator = some (ofCommand command args) →
          memory.world = world →
          node.loader = some (.generator generator) →
          memory.outcomes.lookup node.id = none →
          ((catalog.resolve node word).run memory).1 =
            some { node with id := memory.next, loader := none }) := by
  refine ⟨fragmentOfOutput output, generate_ofCommand hrun, ?_, ?_, ?_⟩
  · exact fun hsuccess commands hlists => fragmentOfOutput_of_lists hsuccess hlists
  · exact fun child hchild => name_of_mem_fragmentOfOutput hchild
  · rintro hfailed catalog memory node generator hprobe hregistered rfl hloader hdeferred
    exact resolve_of_failed hrun hfailed hprobe hregistered hloader hdeferred

end Generating

/-- Two commands, and two lines that list none. -/
def someListing : ProbeOutput where
  stdout := " run \r\n\nbuild\tall\tof it \n \tnothing"

/-- No character of the text is among those that end a field. -/
theorem forall_notMem_of_all (h : (cs.all fun c => !ends.contains c) = true) :
    ∀ c ∈ cs, c ∉ ends := by
  intro c hc hmem
  have hnot := List.all_eq_true.mp h c hc
  rw [List.contains_iff_mem.mpr hmem] at hnot
  cases hnot

/-- Blanks around a text can be checked one by one. -/
theorem padded_of_all {before after : List Char} (hbefore : before.all Text.isBlank = true)
    (hafter : after.all Text.isBlank = true) : Padded text (before ++ text.toList ++ after) :=
  ⟨before, after, rfl, List.all_eq_true.mp hbefore, List.all_eq_true.mp hafter⟩

/-- The first command that it lists. -/
def runCommand : ListedCommand where
  name := "run"
  name_isField := {
    ne_empty := by decide
    bare := ⟨fun _ hc => Option.some.inj hc ▸ rfl, fun _ hc => Option.some.inj hc ▸ rfl⟩
    within := forall_notMem_of_all rfl }
  description_isField := fun text htext => absurd htext (Option.not_mem_none text)

/-- The second one. -/
def buildCommand : ListedCommand where
  name := "build"
  description := some "all\tof it"
  name_isField := {
    ne_empty := by decide
    bare := ⟨fun _ hc => Option.some.inj hc ▸ rfl, fun _ hc => Option.some.inj hc ▸ rfl⟩
    within := forall_notMem_of_all rfl }
  description_isField := fun _ htext => Option.some.inj htext ▸ {
    ne_empty := by decide
    bare := ⟨fun _ hc => Option.some.inj hc ▸ rfl, fun _ hc => Option.some.inj hc ▸ rfl⟩
    within := forall_notMem_of_all rfl }

/-- The listing has a line of each kind, and both ends of lines. -/
theorem lists_someListing : Lists [runCommand, buildCommand] someListing.stdout.toList := by
  have hrun : LineOf (some runCommand) ([' '] ++ "run".toList ++ [' ']) :=
    .named (forall_notMem_of_all rfl) (padded_of_all rfl rfl) rfl
  have hblank : LineOf none ([] ++ "".toList ++ []) :=
    .blank (forall_notMem_of_all rfl) (padded_of_all rfl rfl)
  have hbuild : LineOf (some buildCommand)
      (([] ++ "build".toList ++ []) ++ '\t' :: ([] ++ "all\tof it".toList ++ [' '])) :=
    .described (forall_notMem_of_all rfl) (forall_notMem_of_all rfl) (padded_of_all rfl rfl)
      (padded_of_all rfl rfl)
  have hnameless : LineOf none (([' '] ++ "".toList ++ []) ++ '\t' :: "nothing".toList) :=
    .nameless (forall_notMem_of_all rfl) (forall_notMem_of_all rfl) (padded_of_all rfl rfl)
  exact .line hrun .crlf (.line hblank .lf (.line hbuild .lf (.last hnameless)))

/-- What a command says that fails. -/
def someFailure : ProbeOutput where
  stdout := "run"
  status := some 1

/-- A probe that knows both. -/
def twoOutputs : Probe World :=
  .ofTable [("list", .output someListing), ("fail", .output someFailure)]

/-- A node that waits for the command that fails. -/
def waiting : CatalogNode where
  id := 0
  names := ["make"]
  options := [{ names := ["-n"] }]
  loader := some (.generator "targets")

/-- A catalog in which it does. -/
def twoOutputsCatalog : Catalog World where
  source := .ofEntries []
  generators := [("targets", ofCommand "fail" [])]
  probe := twoOutputs

/-- Of the listing come its two commands, of the failure comes nothing. -/
theorem ofCommand_lists_both :
    ((ofCommand "list" []).generate "" twoOutputs).run {} =
      (.ok (.fragment { id := (), children := [runCommand.child, buildCommand.child] }),
        { log := ["probe list "] }) ∧
    ((twoOutputsCatalog.resolve waiting "make").run { next := 1, world := {} }).1 =
      some { waiting with id := 1, loader := none } := by
  have hlist : (twoOutputs.run "list" []).run {} = (.ok someListing, { log := ["probe list "] }) :=
    rfl
  have hfail : (twoOutputs.run "fail" []).run {} = (.ok someFailure, { log := ["probe fail "] }) :=
    rfl
  constructor
  · obtain ⟨fragment, hgenerated, hlists, -⟩ := ofCommand_lists "" hlist
    rw [hgenerated, hlists rfl _ lists_someListing]
    rfl
  · obtain ⟨fragment, -, -, -, hfailed⟩ := ofCommand_lists "make" hfail
    exact hfailed (by decide) twoOutputsCatalog { next := 1, world := {} } waiting "targets"
      rfl rfl rfl rfl rfl

end CommandCompletion.Generator
