/-
Suggestions as a table.

The table has a header and a row for each suggestion. A column is as wide as its
widest line, with a space on each side; a row is as high as its highest cell.
Descriptions are broken into lines that fit a limit. The header is centred, all
else starts at the left.
-/
import CommandCompletion.Suggestion
import CommandCompletion.Text.Width

set_option autoImplicit false

namespace CommandCompletion.Rendering

/-! ## Styles -/

/-- A horizontal rule. -/
structure Rule where
  left : String
  fill : Char
  cross : String
  right : String
deriving Repr, Inhabited

/-- What is drawn between the cells of a table. A rule that is missing takes no line. -/
structure TableStyle where
  left : String
  between : String
  right : String
  top : Option Rule
  belowHeader : Option Rule
  betweenRows : Option Rule
  bottom : Option Rule
deriving Repr, Inhabited

namespace TableStyle

/-- Boxes drawn with lines. -/
def modern : TableStyle where
  left := "│"
  between := "│"
  right := "│"
  top := some ⟨"┌", '─', "┬", "┐"⟩
  belowHeader := some ⟨"├", '─', "┼", "┤"⟩
  betweenRows := some ⟨"├", '─', "┼", "┤"⟩
  bottom := some ⟨"└", '─', "┴", "┘"⟩

/-- Boxes drawn with signs of the keyboard. -/
def ascii : TableStyle where
  left := "|"
  between := "|"
  right := "|"
  top := some ⟨"+", '-', "+", "+"⟩
  belowHeader := some ⟨"+", '-', "+", "+"⟩
  betweenRows := some ⟨"+", '-', "+", "+"⟩
  bottom := some ⟨"+", '-', "+", "+"⟩

/-- A rule below the header and bars between the columns, nothing else. -/
def psql : TableStyle where
  left := ""
  between := "|"
  right := ""
  top := none
  belowHeader := some ⟨"", '-', "+", ""⟩
  betweenRows := none
  bottom := none

end TableStyle

/-! ## Cells -/

/-- The lines of a cell, without line feeds. There is always one. -/
abbrev Cell := List (List Char)

/-- The lines of a text. A line feed at its end leaves an empty one behind. -/
def cellOf (text : String) : Cell := (Text.cut (· == '\n') text).map String.toList

/-- The columns that the widest line takes. -/
def cellWidth (cell : Cell) : Nat := (cell.map Text.width).foldl max 0

/-- Breaks `cs` into lines of at most `limit` columns. `line` holds, in reverse,
the line in progress, which takes `used` columns. Every character counts for at
least one column; one that is wider than a whole line is replaced by marks that
fill the line it would stand in. -/
def breakLine (limit used : Nat) (line : List Char) : List Char → Cell
  | [] => [line.reverse]
  | c :: cs =>
    let needed := max 1 (Text.charWidth c)
    -- A line is closed only when a character follows, so none is left empty at the end.
    let full := used == limit
    let used' := if full then 0 else used
    let line' := if full then [] else line
    let before := if full then [line.reverse] else []
    if used' + needed ≤ limit then before ++ breakLine limit (used' + needed) (c :: line') cs
    -- No line can hold the character, so this one is filled up and ends.
    else if limit < needed then
      before ++ breakLine limit limit (List.replicate (limit - used') (Char.ofNat 0xFFFD) ++ line') cs
    else before ++ line'.reverse :: breakLine limit needed [c] cs

/-- A cell broken into lines of at most `limit` columns. A cell that fits is
left alone, and a limit of nothing leaves nothing. -/
def wrapCell (limit : Nat) (cell : Cell) : Cell :=
  if cellWidth cell ≤ limit then cell
  else if limit = 0 then [[]]
  else cell.flatMap (breakLine limit 0 [])

/-! ## Rows -/

/-- `count` spaces. -/
def spaces (count : Nat) : String := String.ofList (List.replicate count ' ')

/-- A line of a header cell, `none` below its last one. The cell is centred as a
block, so its lines begin in the same column. With colours, a line is written in
bold cyan. -/
def headerLine (colors : Bool) (width : Nat) (cell : Cell) : Option (List Char) → String
  | none => spaces width
  | some line =>
    let left := (width - cellWidth cell) / 2
    let text := String.ofList line
    let shown := if colors then "\x1b[36m\x1b[1m" ++ text ++ "\x1b[39m\x1b[22m" else text
    spaces left ++ shown ++ spaces (width - left - Text.width line)

/-- A line of a cell, `none` below its last one. -/
def bodyLine (width : Nat) (_ : Cell) : Option (List Char) → String
  | none => spaces width
  | some line => String.ofList line ++ spaces (width - Text.width line)

/-- The lines of a row. `showLine` writes a line of a cell into its column, also below the last line
of the cell. -/
def rowLines (style : TableStyle) (showLine : Nat → Cell → Option (List Char) → String)
    (widths : List Nat) (row : List Cell) : List String :=
  let height := (row.map List.length).foldl max 0
  (List.range height).map fun k =>
    let cells := (widths.zip row).map fun (width, cell) =>
      " " ++ showLine width cell cell[k]? ++ " "
    style.left ++ String.intercalate style.between cells ++ style.right

/-- The line of a rule, if the style draws it. -/
def ruleLine (widths : List Nat) : Option Rule → List String
  | none => []
  | some rule =>
    let fills := widths.map fun width => String.ofList (List.replicate (width + 2) rule.fill)
    [rule.left ++ String.intercalate rule.cross fills ++ rule.right]

/-! ## Tables -/

/-- How a table is drawn. -/
structure TableFormat where
  style : TableStyle := .modern
  colors : Bool := false
  /-- Columns that a description may take. -/
  maxDescriptionWidth : Nat := 60
deriving Inhabited

namespace TableFormat

/-- The cells of a row: all but the last as they are, the last wrapped. -/
def cells (format : TableFormat) (name kind priority description : String) : List Cell :=
  [cellOf name, cellOf kind, cellOf priority,
    wrapCell format.maxDescriptionWidth (cellOf description)]

/-- The lines of the table, rules included. A column is as wide as the widest of its cells, the
header's among them. -/
def lines (format : TableFormat) (candidates : List Suggestion) : List String :=
  let style := format.style
  let header := format.cells "name" "kind" "priority" "description"
  let rows := candidates.map fun candidate =>
    format.cells candidate.name candidate.kind.name (toString candidate.priority)
      (candidate.description.getD "")
  let widths := (header :: rows).foldl
    (fun widths row => (widths.zip row).map fun (width, cell) => max width (cellWidth cell))
    [0, 0, 0, 0]
  let body := rows.map (rowLines style bodyLine widths)
  ruleLine widths style.top ++
    rowLines style (headerLine format.colors) widths header ++
    ruleLine widths style.belowHeader ++
    (body.intersperse (ruleLine widths style.betweenRows)).flatten ++
    ruleLine widths style.bottom

/-- The table, and below it how many characters a candidate replaces. -/
def render (format : TableFormat) (suggestions : Suggestions) : String :=
  let lines :=
    if suggestions.candidates.isEmpty then ["(no suggestions)"]
    else format.lines suggestions.candidates
  String.intercalate "\n" (lines ++ [s!"charactersToDrop: {suggestions.charactersToDrop}"])

end TableFormat

end CommandCompletion.Rendering
