/-
Utilities that work on the lines of a text: the beginning, the end, the number,
the order, the parts of lines.
-/
import CommandCompletion.Script.Pattern
import CommandCompletion.Script.Utility.Basic
import CommandCompletion.Text.Decimal

set_option autoImplicit false

namespace CommandCompletion.Script

/-- A number on the right of a field of so many columns. -/
def alignRight (width : Nat) (n : Nat) : String :=
  let digits := toString n
  String.ofList (List.replicate (width - digits.length) ' ') ++ digits

/-- The number that decimal digits write, `none` if there is anything else. -/
def natOf? (text : String) : Option Nat :=
  if !text.isEmpty && text.toList.all Char.isDigit then some (Text.digitsValue text.toList) else none

/-! ## Whole texts -/

/-- Copies files, with lines numbered or their ends shown where that is asked for. -/
def cat (request : Request) : Result :=
  let spelling : Spelling := { flags := "nbsAETvetu", long := [("number", 'n'), ("show-ends", 'E')] }
  request.withOptions spelling 1 fun options =>
    let (text, result) := request.contents Request.plainly options.operands
    let shows := fun letters : String => letters.toList.any options.has
    if !shows "nbsAETe" then { result with out := text }
    else
      let ended := text.endsWith "\n"
      let ends := if shows "AEe" then "$" else ""
      let step := fun (state : List String × Nat × Bool) (line : String) =>
        let (lines, number, blankBefore) := state
        if shows "s" && line.isEmpty && blankBefore then state
        else
          let line' := if shows "AT" then line.replace "\t" "^I" else line
          let counted := shows "n" && !shows "b" || shows "b" && !line.isEmpty
          let label := if counted then alignRight 6 (number + 1) ++ "\t" else ""
          (lines ++ [label ++ line' ++ ends], if counted then number + 1 else number, line.isEmpty)
      let (lines, _, _) := (linesOf text).foldl step ([], 0, false)
      let out := ofLines lines
      { result with out := if ended || lines.isEmpty then out else (out.dropEnd (1 + ends.length)).toString }

/-- Writes the lines backwards, the last first. -/
def tac (request : Request) : Result :=
  request.withOptions {} 1 fun options =>
    let wording := fun path cause => s!"failed to open {quoteAlways path} for reading: {cause}"
    let (files, result) := request.readAll wording options.operands
    { result with out := String.join (files.map fun (_, text) => ofLines (linesOf text).reverse) }

/-- Writes each line backwards. -/
def rev (request : Request) : Result :=
  request.withOptions {} 1 fun options =>
    let (text, result) := request.contents Request.plainly options.operands
    let lines := (linesOf text).map fun line => String.ofList line.toList.reverse
    let out := ofLines lines
    { result with out := if text.endsWith "\n" then out else (out.dropEnd 1).toString }

/-- Numbers the lines that are not empty. -/
def nl (request : Request) : Result :=
  let spelling : Spelling := { flags := "p", valued := "bnsvwi" }
  request.withOptions spelling 1 fun options =>
    let (text, result) := request.contents Request.plainly options.operands
    let all := options.value? 'b' = some "a"
    let width := ((options.value? 'w').bind natOf?).getD 6
    let separator := (options.value? 's').getD "\t"
    let first := ((options.value? 'v').bind natOf?).getD 1
    let step := fun (state : List String × Nat) (line : String) =>
      if all || !line.isEmpty then (state.1 ++ [alignRight width state.2 ++ separator ++ line], state.2 + 1)
      else (state.1 ++ [String.ofList (List.replicate (width + separator.length) ' ') ++ line], state.2)
    { result with out := ofLines ((linesOf text).foldl step ([], first)).1 }

/-! ## Beginning and end -/

/-- The first lines of a text, with their line ends, and what follows them. -/
def splitLines (count : Nat) (text : String) : String × String :=
  let rec go : Nat → List Char → List Char → List Char × List Char
    | 0, done, cs => (done, cs)
    | _, done, [] => (done, [])
    | count + 1, done, c :: cs => if c = '\n' then go count (c :: done) cs else go (count + 1) (c :: done) cs
  let (done, rest) := go count [] text.toList
  (String.ofList done.reverse, String.ofList rest)

/-- Shows a part of each file, with titles if there are several. Complaints name
files that cannot be read in the words of these utilities. -/
def showParts (request : Request) (options : Options) (part : String → String × String) : Result :=
  let paths := if options.operands.isEmpty then ["-"] else options.operands
  let titled := (1 < paths.length || options.has 'v') && !options.has 'q'
  let step := fun (state : Result × Bool) (path : String) =>
    match request.read path with
    | .ok text =>
      let (shown, unread) := part text
      let shownPath := if path = "-" then "standard input" else path
      let title := if titled then (if state.2 then "\n" else "") ++ s!"==> {shownPath} <==\n" else ""
      (state.1 ++ { out := title ++ shown, unread := if path = "-" then some unread else none }, true)
    | .error .isDirectory =>
      (state.1 ++ request.complain s!"error reading {quoteAlways path}: Is a directory", state.2)
    | .error cause =>
      (state.1 ++ request.complain s!"cannot open {quoteAlways path} for reading: {causeText cause}", state.2)
  (paths.foldl step ({}, false)).1

/-- The arguments with a count that is written as an option by itself spelled out. -/
def spellCount : List String → List String
  | arg :: args =>
    if arg.startsWith "-" && 1 < arg.length && (arg.toList.drop 1).all Char.isDigit then
      "-n" :: (arg.drop 1).toString :: args
    else arg :: args
  | [] => []

/-- The beginning of each file: ten lines, or as many lines or octets as are
asked for; all but the last for a number below zero. -/
def head (request : Request) : Result :=
  let request := { request with args := spellCount request.args }
  let spelling : Spelling :=
    { flags := "qv", valued := "nc", long := [("lines", 'n'), ("bytes", 'c'), ("quiet", 'q')] }
  request.withOptions spelling 1 fun options =>
    let lines := (options.value? 'n').getD "10"
    let count := (options.value? 'c').getD lines
    let what := if options.has 'c' then "bytes" else "lines"
    let exceptLast := count.startsWith "-"
    match natOf? (if exceptLast then (count.drop 1).toString else count) with
    | none => request.complain s!"invalid number of {what}: '{count}'"
    | some n =>
      showParts request options fun text =>
        if options.has 'c' then
          let n := if exceptLast then text.length - n else n
          ((text.take n).toString, (text.drop n).toString)
        else splitLines (if exceptLast then (linesOf text).length - n else n) text

/-- The end of each file: ten lines, or as many lines or octets as are asked for;
what begins at a line or an octet for a number with a plus sign. -/
def tail (request : Request) : Result :=
  let args := spellCount request.args
  let args := match args with
    | arg :: rest =>
      if arg.startsWith "+" && (natOf? (arg.drop 1).toString).isSome then "-n" :: arg :: rest else args
    | [] => []
  let request := { request with args := args }
  let spelling : Spelling :=
    { flags := "qvf", valued := "nc", long := [("lines", 'n'), ("bytes", 'c'), ("quiet", 'q')] }
  request.withOptions spelling 1 fun options =>
    let count := (options.value? 'c').getD ((options.value? 'n').getD "10")
    let what := if options.has 'c' then "bytes" else "lines"
    let fromStart := count.startsWith "+"
    match natOf? (if fromStart || count.startsWith "-" then (count.drop 1).toString else count) with
    | none => request.complain s!"invalid number of {what}: '{count}'"
    | some n =>
      showParts request options fun text =>
        let size := if options.has 'c' then text.length else (linesOf text).length
        let skipped := if fromStart then n - 1 else size - n
        (if options.has 'c' then (text.drop skipped).toString else (splitLines skipped text).2, "")

/-! ## Counting -/

/-- What is counted in a text. -/
structure Counts where
  lines : Nat := 0
  words : Nat := 0
  octets : Nat := 0
  longest : Nat := 0

namespace Counts

/-- Counts. -/
def ofText (text : String) : Counts where
  lines := text.toList.count '\n'
  words := ((text.toList.splitBy fun a b => Pattern.isBlank a == Pattern.isBlank b).filter fun run =>
    !run.all Pattern.isBlank).length
  octets := text.length
  longest := ((linesOf text).map String.length).foldl max 0

/-- Both together. -/
def add (a b : Counts) : Counts :=
  ⟨a.lines + b.lines, a.words + b.words, a.octets + b.octets, max a.longest b.longest⟩

/-- The counts that are asked for, in columns. -/
def write (counts : Counts) (options : Options) (width : Nat) (title : String) : String :=
  let chosen := "lwcmL".toList.any options.has
  let wanted := fun letter : Char => if chosen then options.has letter else "lwc".toList.contains letter
  let numbers := (if wanted 'l' then [counts.lines] else []) ++
    (if wanted 'w' then [counts.words] else []) ++
    (if wanted 'm' then [counts.octets] else []) ++
    (if wanted 'c' then [counts.octets] else []) ++
    (if wanted 'L' then [counts.longest] else [])
  String.intercalate " " (numbers.map (alignRight width)) ++
    (if title.isEmpty then "" else " " ++ title) ++ "\n"

end Counts

/-- Counts lines, words and octets. -/
def wc (request : Request) : Result :=
  let spelling : Spelling := {
    flags := "lwcmL",
    long := [("lines", 'l'), ("words", 'w'), ("bytes", 'c'), ("chars", 'm'), ("max-line-length", 'L')] }
  request.withOptions spelling 1 fun options =>
    let paths := if options.operands.isEmpty then ["-"] else options.operands
    let isOne := paths.length = 1 && (options.chosen.map (·.1)).eraseDups.length = 1
    -- The columns have room for the size of all files, and more if a size is unknown.
    let sizes := paths.map fun path =>
      match request.read path with
      | .ok text => if path = "-" && !request.input.isFile then none else some text.length
      | .error .isDirectory => none
      | .error _ => some 0
    let total := sizes.foldl (fun total size => total + size.getD 0) 0
    let width := if isOne then 1
      else max (toString total).length (if sizes.contains none then 7 else 1)
    let step := fun (state : Result × Counts) (path : String) =>
      let shown := if options.operands.isEmpty then "" else path
      match request.read path with
      | .ok text =>
        let counts := Counts.ofText text
        (state.1 ++ { out := counts.write options width shown,
                      unread := if path = "-" then some "" else none }, state.2.add counts)
      | .error .isDirectory =>
        (state.1 ++ { request.complain (Request.plainly path "Is a directory") with
          out := Counts.write {} options width shown }, state.2)
      | .error cause =>
        let text := if path.isEmpty then "invalid zero-length file name"
          else Request.plainly path (causeText cause)
        (state.1 ++ request.complain text, state.2)
    let (result, sum) := paths.foldl step ({}, {})
    if 1 < paths.length then { result with out := result.out ++ sum.write options width "total" }
    else result

/-! ## Order -/

/-- The part of a line that is compared, and how. -/
structure SortKey where
  /-- The field it begins in, and the character in that field, from 1. -/
  startField : Nat := 1
  startChar : Nat := 1
  /-- Where it ends; a character of 0 is the end of the field. -/
  stop : Option (Nat × Nat) := none
  letters : List Char := []
deriving Repr, Inhabited

namespace SortKey

/-- A field and a character, with letters behind. -/
def position? (text : String) : Option (Nat × Option Nat × List Char) :=
  let cs := text.toList
  let digits := cs.takeWhile Char.isDigit
  let rest := cs.drop digits.length
  let (char, rest) := match rest with
    | '.' :: rest =>
      let digits := rest.takeWhile Char.isDigit
      (some (Text.digitsValue digits), rest.drop digits.length)
    | rest => (none, rest)
  if digits.isEmpty || !rest.all "bdfghiMnRrV".toList.contains then none
  else some (Text.digitsValue digits, char, rest)

/-- The key that a text describes. -/
def ofText? (text : String) : Option SortKey :=
  match text.splitOn "," with
  | [start] => do
    let (field, char, letters) ← position? start
    if field = 0 then none else return { startField := field, startChar := char.getD 1, letters := letters }
  | [start, stop] => do
    let (field, char, letters) ← position? start
    let (lastField, lastChar, more) ← position? stop
    if field = 0 then none
    else return {
      startField := field, startChar := char.getD 1, stop := some (lastField, lastChar.getD 0)
      letters := letters ++ more }
  | _ => none

/-- The fields of a line. Without a separator a field begins with the blanks in
front of it. -/
def fields (separator : Option Char) (line : List Char) : List (List Char) :=
  match separator with
  | some c => Text.cutFrom (· == c) [] line
  | none => line.splitBy fun a b => Pattern.isBlank a || !Pattern.isBlank b

/-- The part of a line. -/
def part (key : SortKey) (separator : Option Char) (line : List Char) : List Char :=
  let fields := fields separator line
  let isolated := fun (count : Nat) =>
    -- Octets in front of a field, separators included.
    (fields.take count).foldl (fun length field => length + field.length) 0 +
      (if separator.isSome then min count fields.length else 0)
  let skipBlanks := fun (field : List Char) (n : Nat) =>
    if key.letters.contains 'b' then (field.takeWhile Pattern.isBlank).length + n else n
  let start := isolated (key.startField - 1) +
    skipBlanks (fields.getD (key.startField - 1) []) (key.startChar - 1)
  let stop := match key.stop with
    | none => line.length
    | some (field, 0) => isolated (field - 1) + (fields.getD (field - 1) []).length
    | some (field, char) => isolated (field - 1) + min char (fields.getD (field - 1) []).length
  if fields.length < key.startField then [] else (line.take stop).drop start

/-- A number in front of a text, as a sign, the digits before and behind the point. -/
def leadingNumber (cs : List Char) : Int :=
  let cs := cs.dropWhile Pattern.isBlank
  let (negative, cs) := match cs with
    | '-' :: cs => (true, cs)
    | cs => (false, cs)
  let whole := cs.takeWhile Char.isDigit
  let fraction := match cs.drop whole.length with
    | '.' :: rest => rest.takeWhile Char.isDigit
    | _ => []
  let places := (fraction ++ List.replicate 20 '0').take 20
  let n : Int := Text.digitsValue (whole ++ places)
  if negative then -n else n

/-- The power of a thousand that a letter behind a number stands for. -/
def unitOf (cs : List Char) : Nat :=
  let rest := cs.dropWhile fun c => Pattern.isBlank c || c.isDigit || c == '.' || c == '-'
  match rest with
  | c :: _ => ("KMGTPEZY".toList.idxOf? c.toUpper).elim 0 (· + 1)
  | [] => 0

/-- A text in pieces that are digits throughout or hold none. -/
def versionPieces (cs : List Char) : List (List Char) :=
  cs.splitBy fun a b => a.isDigit == b.isDigit

/-- Compares pieces of versions, numbers by their value. -/
def compareVersions : List (List Char) → List (List Char) → Ordering
  | [], [] => .eq
  | [], _ => .lt
  | _, [] => .gt
  | a :: as, b :: bs =>
    let first := if a.all Char.isDigit && b.all Char.isDigit then
        compare (Text.digitsValue a) (Text.digitsValue b)
      else compare (String.ofList a) (String.ofList b)
    first.then (compareVersions as bs)

/-- Compares two parts. -/
def compareParts (letters : List Char) (a b : List Char) : Ordering :=
  let prepare := fun cs : List Char =>
    let cs := if letters.contains 'd' then cs.filter fun c => c.isAlphanum || Pattern.isBlank c else cs
    if letters.contains 'f' then cs.map Char.toUpper else cs
  if letters.contains 'n' || letters.contains 'g' then compare (leadingNumber a) (leadingNumber b)
  else if letters.contains 'h' then
    (compare (unitOf a) (unitOf b)).then (compare (leadingNumber a) (leadingNumber b))
  else if letters.contains 'V' then compareVersions (versionPieces a) (versionPieces b)
  else compare (String.ofList (prepare a)) (String.ofList (prepare b))

end SortKey

/-- Sorts lines. -/
def sort (request : Request) : Result :=
  let spelling : Spelling := {
    flags := "rnufbdghisVmczR", valued := "ktoST"
    long := [("reverse", 'r'), ("numeric-sort", 'n'), ("unique", 'u'), ("key", 'k'),
      ("field-separator", 't'), ("ignore-case", 'f'), ("version-sort", 'V'), ("output", 'o')] }
  request.withOptions spelling 2 fun options =>
    let shared := (options.chosen.map (·.1)).filter "rnfbdghiV".toList.contains
    let texts := options.chosen.filterMap fun (letter, value) => if letter = 'k' then some value else none
    match texts.find? fun text => (SortKey.ofText? text).isNone with
    | some text =>
      let cs := text.toList
      request.complain
        (if cs.head?.any Char.isDigit && (text.splitOn ",").length ≤ 2 then
          (if cs.head? = some '0' then s!"field number is zero: invalid field specification '{text}'"
          else s!"stray character in field spec: invalid field specification '{text}'")
        else s!"invalid number at field start: invalid count at start of '{text}'") 2
    | none =>
      let separator := (options.value? 't').bind fun text => text.toList.head?
      -- A key without letters of its own is compared as all are.
      let keys := (texts.filterMap SortKey.ofText?).map fun key =>
        if key.letters.isEmpty then { key with letters := shared } else key
      let keys := if keys.isEmpty then [({ letters := shared } : SortKey)] else keys
      let byKeys (a b : List Char) : Ordering := keys.foldl
        (fun order key =>
          let own := SortKey.compareParts key.letters (key.part separator a) (key.part separator b)
          order.then (if key.letters.contains 'r' then own.swap else own)) .eq
      let whole (a b : List Char) : Ordering :=
        if options.has 's' || options.has 'u' then .eq
        else
          let own := compare (String.ofList a) (String.ofList b)
          if options.has 'r' then own.swap else own
      let wording := fun path cause => "cannot read: " ++ Request.plainly path cause
      let (text, result) := request.contents wording options.operands
      if result.status != 0 then
        { Result.complaint ((linesOf result.err).headD "") 2 with unread := result.unread }
      else
        let lines := (linesOf text).map String.toList
        if options.has 'c' then
          let pairs := lines.zip (lines.drop 1)
          match pairs.findIdx? fun (a, b) => (byKeys a b).then (whole a b) == .gt with
          | some n =>
            let path := options.operands.headD "-"
            { Result.complaint s!"sort: {path}:{n + 2}: disorder: {String.ofList (lines.getD (n + 1) [])}" 1
              with unread := result.unread }
          | none => result
        else
          let sorted := lines.mergeSort fun a b => ((byKeys a b).then (whole a b)).isLE
          let kept := if options.has 'u' then
            sorted.foldr (fun line kept =>
              match kept with
              | next :: rest => if byKeys line next == .eq then line :: rest else line :: kept
              | [] => [line]) []
            else sorted
          let out := ofLines (kept.map String.ofList)
          match options.value? 'o' with
          | some path =>
            { result with root := some (request.files.putFile (decode path) (bytesOf out)).root }
          | none => { result with out := out }

/-- Drops lines that are equal to the line before. -/
def uniq (request : Request) : Result :=
  let spelling : Spelling := {
    flags := "cdui", valued := "fsw"
    long := [("count", 'c'), ("repeated", 'd'), ("unique", 'u'), ("ignore-case", 'i')] }
  request.withOptions spelling 1 fun options =>
    let (text, result) := request.contents Request.plainly (options.operands.take 1)
    let skippedFields := ((options.value? 'f').bind natOf?).getD 0
    let skippedChars := ((options.value? 's').bind natOf?).getD 0
    let view := fun line : String =>
      let cs := (List.range skippedFields).foldl
        (fun cs _ => (cs.dropWhile Pattern.isBlank).dropWhile fun c => !Pattern.isBlank c) line.toList
      let cs := cs.drop skippedChars
      let cs := match (options.value? 'w').bind natOf? with
        | some n => cs.take n
        | none => cs
      if options.has 'i' then cs.map Char.toLower else cs
    let groups := (linesOf text).splitBy fun a b => view a == view b
    let shown := groups.filter fun group =>
      (!options.has 'd' || 1 < group.length) && (!options.has 'u' || group.length = 1)
    let lines := shown.map fun group =>
      (if options.has 'c' then alignRight 7 group.length ++ " " else "") ++ group.headD ""
    { result with out := ofLines lines }

/-- The common and the different lines of two sorted texts, in three columns. -/
def compareLines (hidden : List Char) : (rounds : Nat) → List String → List String → List String
  | 0, _, _ => []
  | _, [], [] => []
  | rounds + 1, as, bs =>
    let column := fun (number : Char) (line : String) =>
      if hidden.contains number then []
      else
        let before := (['1', '2', '3'].takeWhile (· != number)).filter fun n => !hidden.contains n
        [String.ofList (before.map fun _ => '\t') ++ line]
    match as, bs with
    | a :: as', b :: bs' =>
      if a = b then column '3' a ++ compareLines hidden rounds as' bs'
      else if a < b then column '1' a ++ compareLines hidden rounds as' bs
      else column '2' b ++ compareLines hidden rounds as bs'
    | a :: as', [] => column '1' a ++ compareLines hidden rounds as' []
    | [], b :: bs' => column '2' b ++ compareLines hidden rounds [] bs'
    | [], [] => []

/-- Compares two sorted files line by line. -/
def comm (request : Request) : Result :=
  request.withOptions { flags := "123" } 1 fun options =>
    match options.operands with
    | [a, b] =>
      match request.read a, request.read b with
      | .ok x, .ok y =>
        let (xs, ys) := (linesOf x, linesOf y)
        { out := ofLines (compareLines (options.chosen.map (·.1)) (xs.length + ys.length + 1) xs ys),
          unread := if a = "-" || b = "-" then some "" else none }
      | .error cause, _ => request.complain s!"{a}: {causeText cause}"
      | _, .error cause => request.complain s!"{b}: {causeText cause}"
    | [] => request.misuse "missing operand"
    | [a] => request.misuse s!"missing operand after '{a}'"
    | _ :: _ :: c :: _ => request.misuse s!"extra operand '{c}'"

/-! ## Parts of lines -/

/-- The numbers that a list of ranges names; `none` for the end of an open one. -/
def rangesOf? (text : String) : Option (List (Nat × Option Nat)) :=
  (text.splitOn ",").mapM fun part =>
    match part.splitOn "-" with
    | [n] => do
      let n ← natOf? n
      if n = 0 then none else return (n, some n)
    | [a, b] =>
      if a.isEmpty && b.isEmpty then none
      else do
        let first ← if a.isEmpty then some 1 else natOf? a
        let last ← if b.isEmpty then some none else (natOf? b).map some
        if first = 0 || last.any (· < first) then none else return (first, last)
    | _ => none

/-- The items whose numbers, from 1, are chosen. -/
def pick {α : Type} (chosen : Nat → Bool) (items : List α) : List α :=
  (items.zipIdx 1).filterMap fun (item, n) => if chosen n then some item else none

/-- Cuts fields or octets out of each line. -/
def cut (request : Request) : Result :=
  let spelling : Spelling := {
    flags := "sn!", valued := "dfcbo"
    long := [("delimiter", 'd'), ("fields", 'f'), ("characters", 'c'), ("bytes", 'b'),
      ("only-delimited", 's'), ("output-delimiter", 'o'), ("complement", '!')] }
  request.withOptions spelling 1 fun options =>
    let byField := options.has 'f'
    let list := ["f", "c", "b"].filterMap fun letter => options.value? (letter.toList.headD ' ')
    let delimiter := (options.value? 'd').getD "\t"
    match list with
    | [] => request.misuse "you must specify a list of bytes, characters, or fields"
    | [list] =>
      match rangesOf? list with
      | none =>
        let cs := list.toList
        request.misuse
          (if (list.splitOn ",").contains "0" then
            (if byField then "fields are numbered from 1" else "byte/character positions are numbered from 1")
          else if cs.all fun c => c.isDigit || c == '-' || c == ',' then
            (if list = "-" then "invalid range with no endpoint: -" else "invalid decreasing range")
          else if byField then s!"invalid field value '{list}'"
          else s!"invalid byte/character position '{list}'")
      | some ranges =>
        if options.has 'd' && !byField then
          request.misuse "an input delimiter may be specified only when operating on fields"
        else if 1 < delimiter.length then request.misuse "the delimiter must be a single character"
        else
          let chosen := fun n : Nat =>
            ranges.any (fun (first, last) => first ≤ n && last.all (n ≤ ·)) != options.has '!'
          let (text, result) := request.contents Request.plainly options.operands
          let separator := delimiter.toList.headD (Char.ofNat 0)
          let glue := (options.value? 'o').getD delimiter
          let lines := (linesOf text).filterMap fun line =>
            if byField then
              let fields := (Text.cutFrom (· == separator) [] line.toList).map String.ofList
              if fields.length < 2 then if options.has 's' then none else some line
              else some (String.intercalate glue (pick chosen fields))
            else some (String.ofList (pick chosen line.toList))
          { result with out := ofLines lines }
    | _ => request.misuse "only one list may be specified"

/-- Joins the lines of several files, or all lines of each. -/
def paste (request : Request) : Result :=
  request.withOptions { flags := "s", valued := "d", long := [("serial", 's'), ("delimiters", 'd')] } 1 fun options =>
    let (files, result) := request.readAll Request.plainly options.operands
    let marks := (((options.value? 'd').getD "\t").replace "\\n" "\n" |>.replace "\\t" "\t").toList
    let mark := fun n : Nat =>
      match marks[n % (max 1 marks.length)]? with
      | some c => String.singleton c
      | none => ""
    let join := fun parts : List String =>
      (parts.zipIdx).foldl (fun line (part, n) => if n = 0 then part else line ++ mark (n - 1) ++ part) ""
    let texts := files.map fun (_, text) => linesOf text
    let lines := if options.has 's' then texts.map join
      else (List.range ((texts.map List.length).foldl max 0)).map fun k =>
        join (texts.map fun lines => lines.getD k "")
    { result with out := ofLines lines }

/-- A line in pieces of at most `width` characters, at blanks if `atBlanks` says so. -/
def foldLine (width : Nat) (atBlanks : Bool) : (rounds : Nat) → List Char → List (List Char)
  | 0, cs => [cs]
  | rounds + 1, cs =>
    if cs.length ≤ width then [cs]
    else
      let room := cs.take width
      let kept := if atBlanks then (room.reverse.dropWhile fun c => !Pattern.isBlank c).reverse else room
      let kept := if kept.isEmpty then room else kept
      kept :: foldLine width atBlanks rounds (cs.drop kept.length)

/-- Breaks lines that are too long. -/
def fold (request : Request) : Result :=
  request.withOptions { flags := "sb", valued := "w" } 1 fun options =>
    let (text, result) := request.contents Request.plainly options.operands
    let width := max 1 (((options.value? 'w').bind natOf?).getD 80)
    let lines := (linesOf text).flatMap fun line =>
      (foldLine width (options.has 's') (line.length + 1) line.toList).map String.ofList
    let out := ofLines lines
    { result with out := if text.endsWith "\n" then out else (out.dropEnd 1).toString }

/-! ## Characters -/

/-- A set of characters, written out, for the text that describes it. `rounds`
bounds the number of parts. -/
def charactersOf : (rounds : Nat) → List Char → List Char
  | 0, _ => []
  | _, [] => []
  | rounds + 1, '[' :: ':' :: cs =>
    let name := cs.takeWhile Char.isLower
    match cs.drop name.length, Pattern.class? (String.ofList name) with
    | ':' :: ']' :: rest, some member =>
      ((List.range 256).map Char.ofNat).filter member ++ charactersOf rounds rest
    | _, _ => '[' :: charactersOf rounds (':' :: cs)
  | rounds + 1, c :: cs =>
    let one : List Char → Char × List Char
      | '\\' :: e :: cs =>
        let digits := ((e :: cs).take 3).takeWhile fun c => '0' ≤ c && c ≤ '7'
        if !digits.isEmpty then
          (Char.ofNat (digits.foldl (fun n d => n * 8 + (d.toNat - 48)) 0 % 256), (e :: cs).drop digits.length)
        else
          let c := match e with
            | 'n' => '\n'
            | 't' => '\t'
            | 'r' => '\r'
            | 'a' => Char.ofNat 7
            | 'b' => Char.ofNat 8
            | 'f' => Char.ofNat 12
            | 'v' => Char.ofNat 11
            | e => e
          (c, cs)
      | c :: cs => (c, cs)
      | [] => (' ', [])
    let (first, rest) := one (c :: cs)
    match rest with
    | '-' :: last :: rest' =>
      let (last, rest') := one (last :: rest')
      ((List.range (last.toNat + 1 - first.toNat)).map fun n => Char.ofNat (first.toNat + n)) ++
        charactersOf rounds rest'
    | rest => first :: charactersOf rounds rest

/-- The text without repetitions of characters of a set. -/
def squeeze (member : Char → Bool) : List Char → List Char
  | a :: b :: cs => if a = b && member a then squeeze member (b :: cs) else a :: squeeze member (b :: cs)
  | cs => cs

/-- Replaces, drops or squeezes characters. -/
def tr (request : Request) : Result :=
  let spelling : Spelling := {
    flags := "cCdst", ordered := true
    long := [("complement", 'c'), ("delete", 'd'), ("squeeze-repeats", 's')] }
  request.withOptions spelling 1 fun options =>
    let setOf := fun text : String => charactersOf (text.length + 1) text.toList
    let complement := options.has 'c' || options.has 'C'
    let full := fun text : String =>
      let set := setOf text
      if complement then ((List.range 256).map Char.ofNat).filter fun c => !set.contains c else set
    let cs := request.input.rest.toList
    let answer := fun cs : List Char => ({ out := String.ofList cs, unread := some "" } : Result)
    match options.operands, options.has 'd', options.has 's' with
    | [], _, _ => request.misuse "missing operand"
    | [a], true, false => answer (cs.filter fun c => !(full a).contains c)
    | [a], false, true => answer (squeeze (full a).contains cs)
    | [a], true, true =>
      request.misuse s!"missing operand after '{a}'\nTwo strings must be given when both deleting and squeezing repeats."
    | [a], false, false =>
      request.misuse s!"missing operand after '{a}'\nTwo strings must be given when translating."
    | [a, b], true, true => answer (squeeze (setOf b).contains (cs.filter fun c => !(full a).contains c))
    | [_, b], true, false =>
      request.misuse
        s!"extra operand '{b}'\nOnly one string may be given when deleting without squeezing repeats."
    | [a, b], false, squeezes =>
      let (sources, targets) := (full a, setOf b)
      match targets.getLast? with
      | none => request.complain "when not truncating set1, string2 must be non-empty"
      | some last =>
        let pairs := sources.zip (targets ++ List.replicate (sources.length - targets.length) last)
        -- A character that is named twice goes to the last place.
        let replace := fun c => (pairs.reverse.lookup c).getD c
        let replaced := cs.map replace
        answer (if squeezes then squeeze targets.contains replaced else replaced)
    | _ :: _ :: c :: _, _, _ => request.misuse s!"extra operand '{c}'"

end CommandCompletion.Script
