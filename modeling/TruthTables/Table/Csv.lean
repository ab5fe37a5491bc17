import TruthTables.Table.Layout
import TruthTables.Text.Csv

set_option autoImplicit false

/-! # Tables as comma-separated values

A header record with the names of the columns, then a record of ones and zeros for each assignment. -/

namespace TruthTables.Table

/-- The digit of a truth value. -/
def digit (value : Bool) : Char :=
  if value then '1' else '0'

/-- The records of a table. -/
def csvRecords (t : Table) : List (List (List Char)) :=
  t.headers :: t.rows.map fun row => (rowValues row).map fun value => [digit value]

/-- The table as comma-separated values. -/
def csv (t : Table) : String :=
  String.ofList (Text.Csv.encode t.csvRecords)

end TruthTables.Table
