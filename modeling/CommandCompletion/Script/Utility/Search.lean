/-
Searching for lines.

A line is selected if one of the expressions matches in it. What is shown of the
selected lines, and of those around them, is up to the options.
-/
import CommandCompletion.Script.Regex
import CommandCompletion.Script.Utility.Lines

set_option autoImplicit false

namespace CommandCompletion.Script

/-- What is searched for, and what is shown. -/
structure Search where
  regex : Regex
  options : Options

namespace Search

/-- The first match in a line at or behind a position. -/
def find? (search : Search) (line : Array Char) (position : Nat) : Option Regex.Match :=
  Regex.find? (search.options.has 'i') search.regex line position

/-- A line is selected. -/
def selects (search : Search) (line : String) : Bool :=
  (search.find? line.toList.toArray 0).isSome != search.options.has 'v'

/-- The parts of a line that match, from a position on. -/
def matchesIn (search : Search) (line : Array Char) : (rounds : Nat) → (position : Nat) → List String
  | 0, _ => []
  | rounds + 1, position =>
    match search.find? line position with
    | none => []
    | some found =>
      -- A match of nothing is not shown.
      if found.last = found.first then matchesIn search line rounds (found.last + 1)
      else String.ofList (line.extract found.first found.last).toList ::
        matchesIn search line rounds found.last

/-- A number that was given with a letter, or with the letter for both sides. -/
def around? (search : Search) (letter : Char) : Option Nat :=
  (search.options.value? letter <|> search.options.value? 'C').bind natOf?

/-- A line in the course of a search. -/
structure Line where
  number : Nat
  text : String
  selected : Bool

/-- The lines up to the one that is selected last, and those behind it. -/
def upTo : (count : Nat) → List Line → List Line × List Line
  | _, [] => ([], [])
  | 0, lines => ([], lines)
  | count + 1, line :: lines =>
    let (front, rest) := upTo (if line.selected then count else count + 1) lines
    (line :: front, rest)

/-- What is shown of a line. -/
def write (search : Search) (title : Option String) (line : Line) : String :=
  let mark := if line.selected then ":" else "-"
  let label := (title.elim "" (· ++ mark)) ++
    (if search.options.has 'n' then toString line.number ++ mark else "")
  if search.options.has 'o' then
    if search.options.has 'v' || !line.selected then ""
    else
      let cs := line.text.toList.toArray
      ofLines ((search.matchesIn cs (cs.size + 1) 0).map (label ++ ·))
  else label ++ line.text ++ "\n"

/-- The lines that are shown, with a mark between those that do not follow each
other. -/
def writeAll (search : Search) (title : Option String) (lines : List Line) : String :=
  let before := (search.around? 'B').getD 0
  let behind := (search.around? 'A').getD 0
  let parted := !search.options.has 'o' &&
    ((search.around? 'A').isSome || (search.around? 'B').isSome)
  let chosen := (lines.filter Line.selected).map Line.number
  let shown := lines.filter fun line =>
    chosen.any fun number => number ≤ line.number + before && line.number ≤ number + behind
  let step := fun (state : String × Option Nat) (line : Line) =>
    let gap := parted && state.2.any (· + 1 < line.number)
    (state.1 ++ (if gap then "--\n" else "") ++ search.write title line, some line.number)
  (shown.foldl step ("", none)).1

/-- What is found in one text: what is written, whether any line is selected, and
what is not read. -/
def inText (search : Search) (title : Option String) (shownPath : String) (text : String) :
    String × Bool × String :=
  let options := search.options
  let lines := ((linesOf text).zipIdx 1).map fun (line, number) =>
    (⟨number, line, search.selects line⟩ : Line)
  let most := if options.has 'q' || options.has 'l' || options.has 'L' then some 1
    else (options.value? 'm').bind natOf?
  let (front, rest) := upTo (most.getD lines.length) lines
  let behind := (rest.take ((search.around? 'A').getD 0)).map fun line => { line with selected := false }
  let count := (front.filter Line.selected).length
  let found := 0 < count
  let out :=
    if options.has 'q' then ""
    else if options.has 'l' then if found then shownPath ++ "\n" else ""
    else if options.has 'L' then if found then "" else shownPath ++ "\n"
    else if options.has 'c' then title.elim "" (· ++ ":") ++ toString count ++ "\n"
    else if text.toList.contains '\x00' && !options.has 'a' then
      if found then s!"Binary file {shownPath} matches\n" else ""
    else search.writeAll title (front ++ behind)
  (out, found, String.intercalate "\n" (rest.map Line.text))

end Search

/-- The files in a directory and in those below it, with their paths. -/
def filesBelow (path : String) : Entry → List (String × String)
  | .file bytes => [(path, octetsOf bytes)]
  | .folder entries =>
    let base := if path.isEmpty || path.endsWith "/" then path else path ++ "/"
    entries.attach.flatMap fun ⟨(name, entry), _⟩ => filesBelow (base ++ encode name) entry
termination_by entry => sizeOf entry
decreasing_by
  rename_i member
  have := List.sizeOf_lt_of_mem member
  simp only [Prod.mk.sizeOf_spec, Entry.folder.sizeOf_spec] at this ⊢
  omega

/-- The last line of what is said about a wrong use. -/
def Request.searchUsage (request : Request) (text : String) : Result :=
  .complaint (text ++ s!"Usage: {request.name} [OPTION]... PATTERNS [FILE]...\nTry " ++
    s!"'{request.name} --help' for more information.") 2

/-- How the options of a search are spelled. -/
def searchSpelling : Spelling where
  flags := "EFGPivyclLnHhoqswxrRaIUbZz"
  valued := "efmABC+-d"
  long := [("extended-regexp", 'E'), ("fixed-strings", 'F'), ("ignore-case", 'i'), ("invert-match", 'v'),
    ("count", 'c'), ("files-with-matches", 'l'), ("files-without-match", 'L'), ("line-number", 'n'),
    ("with-filename", 'H'), ("no-filename", 'h'), ("only-matching", 'o'), ("quiet", 'q'),
    ("silent", 'q'), ("no-messages", 's'), ("word-regexp", 'w'), ("line-regexp", 'x'),
    ("recursive", 'r'), ("text", 'a'), ("regexp", 'e'), ("file", 'f'), ("max-count", 'm'),
    ("after-context", 'A'), ("before-context", 'B'), ("context", 'C'), ("include", '+'),
    ("exclude", '-'), ("color", '='), ("colour", '=')]

namespace Search

/-- The expression that any of the patterns matches, as the options ask for. -/
def expression (extended fixed word line : Bool) (patterns : List String) : Except Regex.Trouble Regex := do
  let read (pattern : String) : Except Regex.Trouble Regex := do
    let regex ← if fixed then pure (Regex.ofFixed pattern) else Regex.ofText extended pattern
    if line then return .sequence .start (.sequence regex .stop)
    else if word then return .sequence .noWordBefore (.sequence regex .noWordBehind)
    else return regex
  match patterns with
  | [] => return .one fun _ => false
  | first :: rest =>
    rest.foldlM (fun regex pattern => do return .choice regex (← read pattern)) (← read first)

/-- The patterns that the options give, and the paths; `none` without a pattern. -/
def patterns? (request : Request) (options : Options) :
    Option (Except (String × FileCause) (List String) × List String) :=
  let given : List (Except (String × FileCause) (List String)) :=
    options.chosen.filterMap fun (letter, value) =>
      if letter = 'e' then some (.ok (value.splitOn "\n"))
      else if letter = 'f' then
        match request.read value with
        | .ok text => some (.ok (linesOf text))
        | .error cause => some (.error (value, cause))
      else none
  if given.isEmpty then
    match options.operands with
    | pattern :: paths => some (.ok (pattern.splitOn "\n"), paths)
    | [] => none
  else some ((given.mapM id).map List.flatten, options.operands)

/-- What is searched: the files that the paths name, with complaints. -/
def subjects (request : Request) (options : Options) (paths : List String) :
    List (String × String) × Result :=
  let recursive := options.has 'r' || options.has 'R'
  let complain := fun (path cause : String) =>
    if options.has 's' then ({ status := 2 } : Result) else request.complain (path ++ ": " ++ cause) 2
  let isWanted := fun (path : String) =>
    let name : String := ((path.splitOn "/").getLast?).getD path
    let fits := fun (pattern : String) =>
      Pattern.matchesText (pattern.toList.map fun c => ⟨c, false⟩) name
    (options.value? '+').all fits && !(options.value? '-').any fits
  let step := fun (state : List (String × String) × Result) (path : String) =>
    match request.read path with
    | .ok text => (state.1 ++ [(path, text)], state.2)
    | .error .isDirectory =>
      if recursive then
        match request.find path with
        | .ok entry => (state.1 ++ (filesBelow path entry).filter fun file => isWanted file.1, state.2)
        | .error cause => (state.1, state.2 ++ complain path (causeText cause))
      else (state.1, state.2 ++ complain path "Is a directory")
    | .error cause => (state.1, state.2 ++ complain path (causeText cause))
  if paths.isEmpty && recursive then
    match request.find "." with
    | .ok entry => ((filesBelow "" entry).filter fun file => isWanted file.1, {})
    | .error cause => ([], complain "." (causeText cause))
  else (if paths.isEmpty then ["-"] else paths).foldl step ([], {})

end Search

/-- Shows the lines of files that an expression matches. -/
def grep (request : Request) : Result :=
  match searchSpelling.read request.args with
  | .error (.unknown letter) => request.searchUsage s!"{request.name}: invalid option -- '{letter}'\n"
  | .error (.unknownName name) => request.searchUsage s!"{request.name}: unrecognized option '--{name}'\n"
  | .error (.valueMissing letter) =>
    request.searchUsage s!"{request.name}: option requires an argument -- '{letter}'\n"
  | .ok options =>
    let options := if options.has 'y' then options.add 'i' "" else options
    match Search.patterns? request options with
    | none => request.searchUsage ""
    | some (.error (path, cause), _) => request.complain s!"{path}: {causeText cause}" 2
    | some (.ok patterns, paths) =>
      let extended := options.has 'E' || options.has 'P' || request.name == "egrep"
      let fixed := options.has 'F' || request.name == "fgrep"
      match Search.expression extended fixed (options.has 'w') (options.has 'x') patterns with
      | .error trouble => request.complain trouble.message 2
      | .ok regex =>
        let search : Search := ⟨regex, options⟩
        let (files, troubles) := Search.subjects request options paths
        let recursive := options.has 'r' || options.has 'R'
        let titled := (1 < paths.length || recursive || options.has 'H') && !options.has 'h'
        let step := fun (state : String × Bool × Option String) (file : String × String) =>
          let shown := if file.1 = "-" then "(standard input)" else file.1
          if options.has 'q' && state.2.1 then state
          else
            let (out, found, rest) := search.inText (if titled then some shown else none) shown file.2
            (state.1 ++ out, state.2.1 || found, if file.1 = "-" then some rest else state.2.2)
        let (out, found, unread) := files.foldl step ("", false, none)
        { troubles with
          out := out
          unread := unread
          status := if found && (options.has 'q' || troubles.status = 0) then 0
            else if troubles.status = 0 then 1 else 2 }

end CommandCompletion.Script
