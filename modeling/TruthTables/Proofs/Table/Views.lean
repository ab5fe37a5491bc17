import TruthTables.Table

set_option autoImplicit false

/-! # Views of a table

A table keeps the values of all rows in one array. A row is cut out of it, a column visits one place in
each row. For every table the two agree on every value (`Column.entries_map_some`), and a table made of
rows has just these rows (`rows_ofRows`). -/

namespace TruthTables

namespace Table

/-! ## Rows -/

variable (t : Table)

/-- The values of a row are a stretch of the store. -/
theorem getElem?_rowAt (place : Fin t.size) {formula : Nat} (h : formula < t.width) :
    (t.rowAt place).values[formula]? = t.results[place.val * t.width + formula]? := by
  have hend : (place.val + 1) * t.width ≤ t.results.size :=
    t.size_results ▸ Nat.mul_le_mul_right _ place.isLt
  rw [rowAt, Array.getElem?_toList, Array.getElem?_extract, Nat.min_eq_left hend, Nat.succ_mul,
    if_pos (by omega)]

theorem length_rows : t.rows.length = t.size :=
  List.length_ofFn

/-- The row of a number is found from the end. -/
theorem row?_eq (number : Nat) :
    t.row? number = if number < t.size then t.rows[t.size - 1 - number]? else none := by
  rw [row?, place?, rows, List.getElem?_ofFn]
  by_cases h : number < t.size
  · rw [dif_pos h, if_pos h, dif_pos (by omega)]
    rfl
  · rw [dif_neg h, if_neg h]
    rfl

/-- Going through the rows is asking for the rows of all numbers, from the highest down. -/
theorem rows_map_some : t.rows.map some = (List.range t.size).reverse.map t.row? := by
  apply List.ext_getElem?
  intro k
  rw [List.getElem?_map, List.getElem?_map]
  by_cases h : k < t.size
  · rw [List.getElem?_reverse (by simpa using h), List.length_range,
      List.getElem?_range (by omega), Option.map_some, row?_eq, if_pos (by omega),
      show t.size - 1 - (t.size - 1 - k) = k by omega]
    have hrow : k < t.rows.length := t.length_rows ▸ h
    rw [List.getElem?_eq_getElem hrow]
    rfl
  · rw [List.getElem?_eq_none (by rw [t.length_rows]; omega), List.getElem?_eq_none (by simp; omega)]
    rfl

/-! ## Tables made of rows -/

/-- A stretch of the store is a row. -/
theorem take_drop_flatMap_values {width : Nat} {rows : List (Row width)} {place : Nat}
    {row : Row width} (h : rows[place]? = some row) :
    ((rows.flatMap Row.values).drop (place * width)).take width = row.values := by
  induction rows generalizing place with
  | nil => exact absurd h (by simp)
  | cons head rest ih =>
      cases place with
      | zero =>
          cases h
          rw [Nat.zero_mul, List.drop_zero, List.flatMap_cons]
          exact List.take_left' row.length_values
      | succ place =>
          rw [List.getElem?_cons_succ] at h
          rw [Nat.succ_mul, Nat.add_comm, List.flatMap_cons, ← List.drop_drop,
            List.drop_left' head.length_values]
          exact ih h

/-- A table made of rows has these rows. -/
theorem rows_ofRows (symbols : SymbolSet) (formulas : List String)
    (rows : List (Row formulas.length)) :
    ((ofRows symbols formulas rows).rows.map fun row => (row.assignment, row.values)) =
      rows.map fun row => (row.assignment, row.values) := by
  have hsize : (ofRows symbols formulas rows).size = rows.length := by simp [size, ofRows]
  apply List.ext_getElem?
  intro k
  rw [List.getElem?_map, List.getElem?_map, Table.rows, List.getElem?_ofFn]
  by_cases h : k < rows.length
  · have hrow := take_drop_flatMap_values (List.getElem?_eq_getElem h)
    rw [dif_pos (hsize ▸ h), List.getElem?_eq_getElem h, Option.map_some, Option.map_some]
    have hwidth : (k + 1) * formulas.length - k * formulas.length = formulas.length := by
      rw [Nat.succ_mul, Nat.add_sub_cancel_left]
    simp only [rowAt, ofRows, width, Array.toList_extract, List.extract_eq_take_drop, hwidth, hrow]
    simp
  · rw [dif_neg (hsize ▸ h), List.getElem?_eq_none (Nat.le_of_not_lt h)]
    rfl

end Table

/-! ## Columns -/

namespace Table

variable {t : Table}

theorem column?_eq_some_iff {formula : Nat} {c : Column} :
    t.column? formula = some c ↔ ∃ h : formula < t.width, c = ⟨t, ⟨formula, h⟩⟩ := by
  rw [column?]
  by_cases h : formula < t.width
  · rw [dif_pos h]
    constructor
    · intro heq
      exact ⟨h, (Option.some.inj heq).symm⟩
    · rintro ⟨-, rfl⟩
      rfl
  · rw [dif_neg h]
    constructor
    · intro heq
      exact absurd heq (by simp)
    · rintro ⟨hlt, -⟩
      exact absurd hlt h

/-- A value found by its column is the one found by its numbers. -/
theorem column?_bind_value? (t : Table) (number formula : Nat) :
    ((t.column? formula).bind fun c => c.value? number) = t.value? number formula := by
  cases hc : t.column? formula with
  | some c =>
      obtain ⟨hlt, rfl⟩ := column?_eq_some_iff.1 hc
      rfl
  | none =>
      have hge : t.width ≤ formula := by
        have hno : ¬ formula < t.width := fun h =>
          absurd (column?_eq_some_iff.2 ⟨h, rfl⟩) (by rw [hc]; simp)
        exact Nat.le_of_not_lt hno
      rw [value?]
      cases t.row? number with
      | none => rfl
      | some row =>
          have hlength : row.values.length ≤ formula := row.length_values.symm ▸ hge
          exact (List.getElem?_eq_none hlength).symm

end Table

/-- The entries of a column are those of the rows. -/
theorem Column.entries_map_some (c : Column) : c.entries.map some = c.table.rows.map fun row =>
    row.values[c.formula.val]?.map fun value => (row.assignment, value) := by
  rw [entries, Table.rows, List.map_ofFn, List.map_ofFn]
  congr 1
  funext place
  have hplace := c.table.place_lt place.isLt c.formula.isLt
  rw [Function.comp_apply, Function.comp_apply, c.table.getElem?_rowAt place c.formula.isLt,
    Array.getElem?_eq_getElem hplace]
  rfl

end TruthTables
