/-
Utilities that make, copy, move and remove files and directories.

Each goes through its operands and changes the files step by step; an operand
that cannot be dealt with is complained about, and the others are dealt with all
the same.
-/
import CommandCompletion.Script.Utility.Paths

set_option autoImplicit false

namespace CommandCompletion.Script

/-- What a step does: the files as it leaves them, and what it reports. -/
abbrev Step := Files → String → Except String (Files × String)

/-- Takes a step for each operand. -/
def Request.each (request : Request) (step : Step) (operands : List String) : Result :=
  let go := fun (state : Files × Result) (operand : String) =>
    match step state.1 operand with
    | .ok (files, report) => (files, state.2 ++ { out := report, root := some files.root })
    | .error text => (state.1, state.2 ++ request.complain text)
  (operands.foldl go (request.files, {})).2

/-- A line of a report, where reports are wanted. -/
def report (options : Options) (line : String) : String := if options.has 'v' then line ++ "\n" else ""

/-- What a path names. -/
def entryAt (files : Files) (path : String) : Except FileCause Entry := files.find (decode path)

/-! ## Directories -/

/-- The paths that lead to a path, the shortest first. -/
def pathsAbove (path : String) : List String :=
  let parts := path.splitOn "/"
  ((List.range parts.length).map fun n => String.intercalate "/" (parts.take (n + 1))).filter
    fun path => !path.isEmpty

/-- Makes a directory, and those that lead to it if `all` says so. -/
def makeDirectory (options : Options) : Step := fun files path =>
  let make := fun (files : Files) (path : String) =>
    match files.makeFolder (decode path) with
    | .ok files => .ok (files, report options s!"mkdir: created directory {quoteAlways path}")
    | .error cause => .error s!"cannot create directory {quoteAlways path}: {causeText cause}"
  if options.has 'p' && !path.isEmpty then
    let step := fun (state : Files × String) (above : String) =>
      match entryAt state.1 above with
      | .ok (.folder _) => .ok state
      | .ok (.file _) =>
        let cause := if above = trimSlashes path then "File exists" else "Not a directory"
        .error s!"cannot create directory {quoteAlways above}: {cause}"
      | .error _ => (make state.1 above).map fun (files, text) => (files, state.2 ++ text)
    (pathsAbove (trimSlashes path)).foldlM step (files, "")
  else make files path

/-- Makes directories. -/
def mkdir (request : Request) : Result :=
  let spelling : Spelling := {
    flags := "pv", valued := "m", long := [("parents", 'p'), ("verbose", 'v'), ("mode", 'm')] }
  request.withOptions spelling 1 fun options =>
    if options.operands.isEmpty then request.misuse "missing operand"
    else request.each (makeDirectory options) options.operands

/-- Removes an empty directory. -/
def removeDirectory (options : Options) (path : String) (files : Files) : Except String (Files × String) :=
  let refuse := fun cause => .error s!"failed to remove {quoteAlways path}: {cause}"
  match entryAt files path with
  | .ok (.folder entries) =>
    if lastName path = "." then refuse "Invalid argument"
    else if !entries.isEmpty || lastName path = ".." then refuse "Directory not empty"
    else .ok (files.remove (decode path),
      report options s!"rmdir: removing directory, {quoteAlways path}")
  | .ok (.file _) => refuse "Not a directory"
  | .error cause => refuse (causeText cause)

/-- Removes empty directories, and those that lead to them if that is asked for. -/
def rmdir (request : Request) : Result :=
  let spelling : Spelling := { flags := "pv", long := [("parents", 'p'), ("verbose", 'v')] }
  request.withOptions spelling 1 fun options =>
    let step : Step := fun files path =>
      if options.has 'p' then
        (pathsAbove (trimSlashes path)).reverse.foldlM
          (fun state path => (removeDirectory options path state.1).map fun (files, text) =>
            (files, state.2 ++ text)) (files, "")
      else removeDirectory options path files
    if options.operands.isEmpty then request.misuse "missing operand"
    else request.each step options.operands

/-! ## Removing -/

/-- The lines that report how an entry is removed with all it holds. -/
def removalReport (path : String) : Entry → String
  | .file _ => s!"removed {quoteAlways path}\n"
  | .folder entries =>
    String.join (entries.attach.map fun ⟨(name, entry), _⟩ =>
      removalReport (path ++ "/" ++ encode name) entry) ++ s!"removed directory {quoteAlways path}\n"
termination_by entry => sizeOf entry
decreasing_by
  rename_i member
  have := List.sizeOf_lt_of_mem member
  simp only [Prod.mk.sizeOf_spec, Entry.folder.sizeOf_spec] at this ⊢
  omega

/-- Removes files, and directories with all they hold if that is asked for. -/
def rm (request : Request) : Result :=
  let spelling : Spelling := {
    flags := "rRfdvi", long := [("recursive", 'r'), ("force", 'f'), ("dir", 'd'), ("verbose", 'v')] }
  request.withOptions spelling 1 fun options =>
    let recursive := options.has 'r' || options.has 'R'
    let step : Step := fun files path =>
      let refuse := fun cause => .error s!"cannot remove {quoteAlways path}: {cause}"
      match entryAt files path with
      | .ok entry =>
        let removed := .ok (files.remove (decode path),
          if options.has 'v' then removalReport (trimSlashes path) entry else "")
        if !entry.isFolder then removed
        else if recursive || options.has 'd' then
          let name := lastName path
          if name = "." || name = ".." then
            .error s!"refusing to remove '.' or '..' directory: skipping {quoteAlways path}"
          else if !recursive && (files.list (decode path)).toOption.any fun entries => !entries.isEmpty then
            refuse "Directory not empty"
          else removed
        else refuse "Is a directory"
      | .error cause =>
        if options.has 'f' && (cause = .notFound || cause = .notDirectory) then .ok (files, "")
        else refuse (causeText cause)
    if options.operands.isEmpty then
      if options.has 'f' then {} else request.misuse "missing operand"
    else request.each step options.operands

/-! ## Files -/

/-- Makes files that do not exist. -/
def touch (request : Request) : Result :=
  let spelling : Spelling := {
    flags := "acmhf", valued := "drt", long := [("no-create", 'c'), ("date", 'd'), ("reference", 'r')] }
  request.withOptions spelling 1 fun options =>
    let step : Step := fun files path =>
      let refuse := fun cause => .error s!"cannot touch {quoteAlways path}: {causeText cause}"
      match entryAt files path with
      | .ok _ => .ok (files, "")
      | .error .notFound =>
        if options.has 'c' then .ok (files, "")
        else
          match files.writeBytes (decode path) .empty with
          | .ok files => .ok (files, "")
          | .error cause => refuse cause
      | .error cause => refuse cause
    if options.operands.isEmpty then request.misuse "missing file operand"
    else request.each step options.operands

/-- Puts an entry where a path leads. What a directory holds is added to one that
is there. -/
def putEntry (path : String) : Entry → Files → Files
  | .file bytes, files => files.putFile path bytes
  | .folder entries, files =>
    entries.attach.foldl (fun files ⟨(name, entry), _⟩ => putEntry (Path.join path name) entry files)
      (files.putFolder path)
termination_by entry => sizeOf entry
decreasing_by
  rename_i member
  have := List.sizeOf_lt_of_mem member
  simp only [Prod.mk.sizeOf_spec, Entry.folder.sizeOf_spec] at this ⊢
  omega

/-- Where an operand goes: into the goal if that is a directory, else in its place. -/
def goalOf (files : Files) (options : Options) (goal path : String) : String :=
  if files.isDirectory (decode goal) && !options.has 'T' then Path.join goal (lastName path) else goal

/-- A path names the same as another. -/
def isSame (files : Files) (a b : String) : Bool := files.names (decode a) == files.names (decode b)

/-- Copies what a path names. -/
def copyTo (options : Options) (goal : String) : Step := fun files path =>
  let recursive := options.has 'r' || options.has 'R' || options.has 'a'
  match entryAt files path with
  | .error cause => .error s!"cannot stat {quoteAlways path}: {causeText cause}"
  | .ok entry =>
    let target := goalOf files options goal path
    let old := (entryAt files target).toOption
    if entry.isFolder && !recursive then
      .error s!"-r not specified; omitting directory {quoteAlways path}"
    else if isSame files path target && old.isSome then
      .error s!"{quoteAlways path} and {quoteAlways target} are the same file"
    else if entry.isFolder && (old.any fun entry => !entry.isFolder) then
      .error s!"cannot overwrite non-directory {quoteAlways target} with directory {quoteAlways path}"
    else if !entry.isFolder && (old.any Entry.isFolder) then
      .error s!"cannot overwrite directory {quoteAlways target} with non-directory"
    else if options.has 'n' && old.isSome then .ok (files, "")
    else
      let what := if entry.isFolder then "directory" else "regular file"
      match if entry.isFolder && old.isNone then files.makeFolder (decode (trimSlashes target))
          else if entry.isFolder then .ok files
          else files.writeBytes (decode target) .empty with
      | .error cause => .error s!"cannot create {what} {quoteAlways target}: {causeText cause}"
      | .ok _ =>
        .ok (putEntry (decode target) entry files,
          report options s!"{quoteAlways path} -> {quoteAlways target}")

/-- Moves what a path names. -/
def moveTo (options : Options) (goal : String) : Step := fun files path =>
  match entryAt files path with
  | .error cause => .error s!"cannot stat {quoteAlways path}: {causeText cause}"
  | .ok entry =>
    let target := goalOf files options goal path
    let old := (entryAt files target).toOption
    let origin := files.names (decode path)
    if isSame files path target then
      .error s!"{quoteAlways path} and {quoteAlways target} are the same file"
    else if entry.isFolder && origin.isPrefixOf (files.names (decode target)) then
      .error s!"cannot move {quoteAlways path} to a subdirectory of itself, {quoteAlways target}"
    else if entry.isFolder && (old.any fun entry => !entry.isFolder) then
      .error s!"cannot overwrite non-directory {quoteAlways target} with directory {quoteAlways path}"
    else if !entry.isFolder && (old.any Entry.isFolder) then
      .error s!"cannot overwrite directory {quoteAlways target} with non-directory"
    else if options.has 'n' && old.isSome then .ok (files, "")
    else
      let holds := match old with
        | some (.folder entries) => !entries.isEmpty
        | _ => false
      if holds then
        .error s!"cannot move {quoteAlways path} to {quoteAlways target}: Directory not empty"
      else
        match files.writeBytes (decode (trimSlashes target)) .empty with
        | .ok _ | .error .isDirectory =>
          .ok (putEntry (decode target) entry (files.remove (decode path)),
            report options s!"renamed {quoteAlways path} -> {quoteAlways target}")
        | .error cause =>
          .error s!"cannot move {quoteAlways path} to {quoteAlways target}: {causeText cause}"

/-- Copies or moves: the last operand says where to, unless an option does. -/
def transfer (request : Request) (step : Options → String → Step) : Result :=
  let spelling : Spelling := {
    flags := "rRapfinvTuLPdxs", valued := "t"
    long := [("recursive", 'r'), ("archive", 'a'), ("force", 'f'), ("verbose", 'v'), ("no-clobber", 'n'),
      ("target-directory", 't'), ("no-target-directory", 'T')] }
  request.withOptions spelling 1 fun options =>
    match options.value? 't', options.operands with
    | _, [] => request.misuse "missing file operand"
    | some goal, paths => request.each (step options goal) paths
    | none, [path] => request.misuse s!"missing destination file operand after {quoteAlways path}"
    | none, [path, goal] => request.each (step options goal) [path]
    | none, operands =>
      let goal := (operands.getLast?).getD ""
      match entryAt request.files goal with
      | .ok (.folder _) => request.each (step options goal) operands.dropLast
      | .ok (.file _) => request.complain s!"target {quoteAlways goal}: Not a directory"
      | .error cause => request.complain s!"target {quoteAlways goal}: {causeText cause}"

/-- Copies files, and directories if that is asked for. -/
def cp (request : Request) : Result := transfer request copyTo

/-- Moves files and directories. -/
def mv (request : Request) : Result := transfer request moveTo

/-- Copies its input to files as well. -/
def tee (request : Request) : Result :=
  request.withOptions { flags := "aip", long := [("append", 'a')] } 1 fun options =>
    let text := request.input.rest
    let step : Step := fun files path =>
      let old := match options.has 'a', entryAt files path with
        | true, .ok (.file bytes) => bytes
        | _, _ => .empty
      match files.writeBytes (decode path) (old ++ bytesOf text) with
      | .ok files => .ok (files, "")
      | .error cause => .error (Request.plainly path (causeText cause))
    let result := request.each step options.operands
    { result with out := text, unread := some "" }

end CommandCompletion.Script
