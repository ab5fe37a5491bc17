import TruthTables.Table
import TruthTables.Text.Blank
import TruthTables.Text.Lines

set_option autoImplicit false

/-! # Tables as aligned text

A truth table as lines of text: the names of the columns, a rule of dashes, and a line of `T` and `F` for
each assignment. A column is as wide as its name and starts two characters behind the one before it, so
every value stands under the first character of its name. Blanks at the end of a line are left out,
except in the rule, which has none. -/

namespace TruthTables.Table

/-- The names of the columns: symbols, then formulas. -/
def headers (t : Table) : List (List Char) :=
  t.symbols.names.map (fun name => [name]) ++ t.formulas.map String.toList

namespace Layout

/-- The mark of a truth value. -/
def mark (value : Bool) : Char :=
  if value then 'T' else 'F'

/-- The width of a column with a given name. -/
def columnWidth (header : List Char) : Nat :=
  max header.length 1

/-- Cells side by side, each padded to the width of its column. -/
def join (widths : List Nat) (cells : List (List Char)) : List Char :=
  List.intercalate [' ', ' '] (List.zipWith (Text.pad .left ' ') widths cells)

/-- The rule below the names. -/
def rule (widths : List Nat) : List Char :=
  List.intercalate [' ', ' '] (widths.map fun width => List.replicate width '-')

end Layout

/-- The values of a row: those of the symbols, then those of the formulas. -/
def rowValues {width : Nat} (row : Row width) : List Bool :=
  row.assignment.values ++ row.values

/-- The lines of the text. -/
def layoutLines (t : Table) : List (List Char) :=
  let widths := t.headers.map Layout.columnWidth
  let line (cells : List (List Char)) := Text.trimEnd (Layout.join widths cells)
  line t.headers :: Layout.rule widths
    :: t.rows.map fun row => line ((rowValues row).map fun value => [Layout.mark value])

/-- The table as aligned text. There is no limit to the width of a column (see `Text.pad`). -/
def layout (t : Table) : String :=
  String.ofList (Text.unlines t.layoutLines)

end TruthTables.Table
