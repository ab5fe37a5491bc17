import TruthTables.Enumeration

set_option autoImplicit false

/-! # Truth tables

The value of every formula under every assignment, stored once: the rows one behind another, in the
order of the enumeration. Rows and columns are views of that store. The row of the assignment with a
given number is found from the end, because the enumeration begins with the highest number; the value
of a column in a row is found by the row's place times the number of formulas. -/

namespace TruthTables

/-- An assignment and the values of `width` formulas under it. -/
structure Row (width : Nat) where
  assignment : Assignment
  values : List Bool
  length_values : values.length = width

/-- The values of formulas under assignments, row by row in one array. -/
structure Table where
  symbols : SymbolSet
  formulas : List String
  assignments : Array Assignment
  results : Array Bool
  size_results : results.size = assignments.size * formulas.length
  deriving DecidableEq

namespace Table

/-- The rows' values one behind another fill the store exactly. -/
theorem length_flatMap_values {width : Nat} (rows : List (Row width)) :
    (rows.flatMap Row.values).length = rows.length * width := by
  induction rows with
  | nil => simp
  | cons row rows ih => simp [ih, row.length_values, Nat.add_mul, Nat.add_comm]

/-- The table of given rows. -/
def ofRows (symbols : SymbolSet) (formulas : List String) (rows : List (Row formulas.length)) :
    Table where
  symbols := symbols
  formulas := formulas
  assignments := (rows.map Row.assignment).toArray
  results := (rows.flatMap Row.values).toArray
  size_results := by
    rw [List.size_toArray, List.size_toArray, List.length_map, length_flatMap_values]

/-- The number of formulas. -/
def width (t : Table) : Nat :=
  t.formulas.length

/-- The number of rows. -/
def size (t : Table) : Nat :=
  t.assignments.size

/-- A place in the store lies before its end. -/
theorem place_lt (t : Table) {row column : Nat} (hrow : row < t.size) (hcolumn : column < t.width) :
    row * t.width + column < t.results.size :=
  calc row * t.width + column
    _ < row * t.width + t.width := Nat.add_lt_add_left hcolumn _
    _ = (row + 1) * t.width := (Nat.succ_mul _ _).symm
    _ ≤ t.size * t.width := Nat.mul_le_mul_right _ hrow
    _ = t.results.size := t.size_results.symm

/-! ## Rows -/

/-- The row at a place of the enumeration order. -/
def rowAt (t : Table) (place : Fin t.size) : Row t.width where
  assignment :=
    have : place.val < t.assignments.size := place.isLt
    t.assignments[place.val]
  values := (t.results.extract (place.val * t.width) ((place.val + 1) * t.width)).toList
  length_values := by
    have h : (place.val + 1) * t.width ≤ t.results.size :=
      t.size_results ▸ Nat.mul_le_mul_right _ place.isLt
    rw [Array.length_toList, Array.size_extract, Nat.min_eq_left h, Nat.succ_mul]
    omega

/-- The place of the assignment with a given number. -/
def place? (t : Table) (number : Nat) : Option (Fin t.size) :=
  if h : number < t.size then some ⟨t.size - 1 - number, by omega⟩ else none

/-- All rows in the order of the enumeration. -/
def rows (t : Table) : List (Row t.width) :=
  List.ofFn t.rowAt

/-- The row of the assignment with a given number. -/
def row? (t : Table) (number : Nat) : Option (Row t.width) :=
  (t.place? number).map t.rowAt

/-- The value of a formula under the assignment with a given number. -/
def value? (t : Table) (number formula : Nat) : Option Bool :=
  (t.row? number).bind fun row => row.values[formula]?

end Table

/-! ## Columns -/

/-- The values of one formula of a table. -/
structure Column where
  table : Table
  formula : Fin table.width

namespace Column

/-- The text of the formula. -/
def text (c : Column) : String :=
  c.table.formulas.get c.formula

/-- The assignments and the formula's value under each, in the order of the enumeration. -/
def entries (c : Column) : List (Assignment × Bool) :=
  List.ofFn fun place : Fin c.table.size =>
    have : place.val < c.table.assignments.size := place.isLt
    have := c.table.place_lt place.isLt c.formula.isLt
    (c.table.assignments[place.val], c.table.results[place.val * c.table.width + c.formula.val])

/-- The formula's values in the order of the enumeration. -/
def values (c : Column) : List Bool :=
  c.entries.map Prod.snd

/-- The formula's value under the assignment with a given number. -/
def value? (c : Column) (number : Nat) : Option Bool :=
  c.table.value? number c.formula

/-- Whether the formula is true under every assignment. -/
def isTautology (c : Column) : Bool :=
  c.entries.all fun entry => entry.2

/-- Whether the formula is false under every assignment. -/
def isContradiction (c : Column) : Bool :=
  c.entries.all fun entry => !entry.2

/-- Whether the formula is true under some assignment. -/
def isSatisfiable (c : Column) : Bool :=
  !c.isContradiction

/-- The numbers of the assignments under which the formula is true, highest first. -/
def models (c : Column) : List Nat :=
  (c.entries.filter fun entry => entry.2).map fun entry => entry.1.number

end Column

namespace Table

/-- The column of a formula. -/
def column? (t : Table) (formula : Nat) : Option Column :=
  if h : formula < t.width then some { table := t, formula := ⟨formula, h⟩ } else none

/-- All columns in the order of the formulas. -/
def columns (t : Table) : List Column :=
  List.ofFn fun formula : Fin t.width => { table := t, formula }

end Table

end TruthTables
