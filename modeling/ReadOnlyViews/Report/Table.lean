import ReadOnlyViews.Report.Diagnostic

/-!
Tables on the console: a title centred over a box, a header in heavy lines, and rows in light ones.
-/

namespace ReadOnlyViews

/-- A column of a table. -/
structure Column where
  header : Text
  alignRight : Bool := false
  deriving DecidableEq, Repr

/-- A table. -/
structure Table where
  title : Text
  columns : List Column
  rows : List (List Text)
  deriving DecidableEq, Repr

namespace Table

/-- The lines of a cell. -/
def cellLines (cell : Text) : List Text := Text.pieces '\n' (Console.visible cell)

/-- The width of a column: that of its widest line, header included. -/
def width (column : Column) (cells : List Text) : Nat :=
  ((column.header :: cells).flatMap cellLines).foldl (fun w line => max w line.length) 0

/-- The widths of the columns. -/
def widths (table : Table) : List Nat :=
  table.columns.zipIdx.map fun (column, index) =>
    width column (table.rows.map fun row => row.getD index [])

/-- A line of a cell filled up to its column, with a blank on each side. -/
def padded (alignRight : Bool) (width : Nat) (line : Text) : Text :=
  let fill := List.replicate (width - line.length) ' '
  [' '] ++ (if alignRight then fill ++ line else line ++ fill) ++ [' ']

/-- A horizontal line: its left end, its stroke, its crossings and its right end. -/
def rule (left stroke cross right : Char) (widths : List Nat) : Text :=
  left :: Text.join [cross] (widths.map fun w => List.replicate (w + 2) stroke) ++ [right]

/-- The lines of a row between vertical bars; short cells are filled up with empty lines. -/
def rowLines (bar : Char) (columns : List Column) (widths : List Nat) (cells : List Text) :
    List Text :=
  let parts := cells.map cellLines
  let height := parts.foldl (fun h lines => max h lines.length) 1
  (List.range height).map fun i =>
    let shown := (columns.zip widths).zipIdx.map fun ((column, w), index) =>
      padded column.alignRight w ((parts.getD index []).getD i [])
    bar :: Text.join [bar] shown ++ [bar]

/-- The lines of a table. -/
def lines (table : Table) : List Text :=
  let widths := table.widths
  let total := widths.foldl (fun sum w => sum + w + 3) 1
  let title : List Text :=
    if table.title.isEmpty then []
    else [List.replicate ((total - table.title.length) / 2) ' ' ++ table.title]
  let header := rowLines '┃' table.columns widths (table.columns.map (·.header))
  let rows := table.rows.flatMap (rowLines '│' table.columns widths)
  title ++ [rule '┏' '━' '┳' '┓' widths] ++ header ++ [rule '┡' '━' '╇' '┩' widths] ++ rows ++
    [rule '└' '─' '┴' '┘' widths]

end Table

/-- The table of all diagnostics that are more than information. -/
def Reporter.summary (reporter : Reporter) (title : Text) : Table where
  title
  columns := [{ header := "Level" }, { header := "Entity" }, { header := "File" },
    { header := "Message" }]
  rows := (reporter.items.filter (·.level != .info)).map fun d =>
    [d.level.word, d.entity.getD [], d.path.getD [], d.message]

/-- Shows a table. -/
def Reporter.printTable (reporter : Reporter) (table : Table) : Reporter :=
  { reporter with console := reporter.console.printLines table.lines }

end ReadOnlyViews
