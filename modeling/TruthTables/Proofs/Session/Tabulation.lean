import TruthTables.Proofs.Enumeration.Calls
import TruthTables.Proofs.Formula.Value
import TruthTables.Proofs.Table.Views
import TruthTables.Session

set_option autoImplicit false

/-! # The table of a session

A session always has a table: an assignment gives every declared symbol a value, so no row can fail. This
is also why it does not matter who evaluates the rows. Whatever way of working on a list hands over the
results in order if there are only results (`CollectsInOrder`), it makes the same table. -/

namespace TruthTables

/-! ## Collecting results -/

/-- A way to work on the items of a list: the results in the order of the items if there is a result for
    each, and otherwise the error for one of those without. -/
structure CollectsInOrder {α β ε : Type} (collect : (α → Except ε β) → List α → Except ε (List β)) :
    Prop where
  ok : ∀ f xs ys, xs.map f = ys.map Except.ok → collect f xs = .ok ys
  error : ∀ f xs, (∃ x ∈ xs, ∃ cause, f x = .error cause) →
    ∃ x ∈ xs, ∃ cause, f x = .error cause ∧ collect f xs = .error cause

section

variable {α β ε : Type}

theorem collectsInOrder_mapM : CollectsInOrder (List.mapM : (α → Except ε β) → List α → _) where
  ok := by
    intro f xs
    induction xs with
    | nil =>
        intro ys h
        rw [List.map_nil, eq_comm, List.map_eq_nil_iff] at h
        rw [h, List.mapM_nil]
        rfl
    | cons x xs ih =>
        intro ys h
        obtain ⟨y, ys, rfl, hx, hxs⟩ := List.map_eq_cons_iff.1 h.symm
        rw [List.mapM_cons, ← hx, ih ys hxs.symm]
        rfl
  error := by
    intro f xs
    induction xs with
    | nil => simp
    | cons x xs ih =>
        rintro ⟨x', hx', cause, hcause⟩
        rw [List.mapM_cons]
        cases hx : f x with
        | error cause' => exact ⟨x, List.mem_cons_self .., cause', hx, rfl⟩
        | ok y =>
            -- the item without a result is behind this one
            have hrest : ∃ x ∈ xs, ∃ cause, f x = .error cause := by
              rcases List.mem_cons.1 hx' with rfl | hmem
              · exact absurd (hx.symm.trans hcause) (by simp)
              · exact ⟨x', hmem, cause, hcause⟩
            obtain ⟨x'', hmem, cause', hcause', hcollect⟩ := ih hrest
            refine ⟨x'', List.mem_cons_of_mem _ hmem, cause', hcause', ?_⟩
            rw [hcollect]
            rfl

/-- Work on each item in a task of its own, then wait for the tasks in order. -/
def collectTasks (f : α → Except ε β) (xs : List α) : Except ε (List β) :=
  (xs.map fun x => Task.spawn fun _ => f x).mapM Task.get

theorem collectTasks_eq_mapM (f : α → Except ε β) (xs : List α) : collectTasks f xs = xs.mapM f := by
  rw [collectTasks]
  induction xs with
  | nil => rfl
  | cons x xs ih =>
      rw [List.map_cons, List.mapM_cons, List.mapM_cons, ih]
      rfl

theorem collectsInOrder_collectTasks : CollectsInOrder (collectTasks : (α → Except ε β) → List α → _) := by
  have heq : (collectTasks : (α → Except ε β) → List α → _) = List.mapM :=
    funext fun f => funext fun xs => collectTasks_eq_mapM f xs
  rw [heq]
  exact collectsInOrder_mapM

end

namespace Session

variable (s : Session)

/-! ## Rows -/

/-- The row of values under an assignment. -/
def valueRow (a : Assignment) : Row s.texts.length where
  assignment := a
  values := s.formulas.map fun f => f.valueUnder a.toValuation
  length_values := by rw [List.length_map, texts, List.length_map]

theorem covers_of_symbols_eq {a : Assignment} (h : a.symbols = s.symbols) :
    a.toValuation.Covers s.symbols :=
  h ▸ a.toValuation_covers

theorem row_eq_ok {a : Assignment} (h : a.symbols = s.symbols) : s.row a = .ok (s.valueRow a) := by
  rw [row, Formula.evaluateAll_eq_ok (s.covers_of_symbols_eq h)]
  rfl

/-! ## Tables -/

/-- The table of a session, with the rows collected in a given way. -/
def tableBy (collect : (Assignment → Except Rejection (Row s.texts.length)) → List Assignment →
    Except Rejection (List (Row s.texts.length))) : Except Rejection Table :=
  (collect s.row s.assignments.toList).map (Table.ofRows s.symbols s.texts)

/-- The table of all values. -/
def valueTable : Table :=
  Table.ofRows s.symbols s.texts (s.assignments.toList.map s.valueRow)

theorem table_eq_tableBy : s.table = s.tableBy List.mapM := by
  rw [table, tableBy]
  cases List.mapM s.row s.assignments.toList <;> rfl

theorem tableInParallel_eq_tableBy : s.tableInParallel = s.tableBy collectTasks := by
  rw [tableInParallel, tableBy, collectTasks]
  cases List.mapM Task.get (s.assignments.toList.map fun a => Task.spawn fun _ => s.row a) <;> rfl

theorem tableBy_eq_ok {collect : (Assignment → Except Rejection (Row s.texts.length)) →
    List Assignment → Except Rejection (List (Row s.texts.length))} (h : CollectsInOrder collect) :
    s.tableBy collect = .ok s.valueTable := by
  -- an assignment gives every declared symbol a value, so each row is ok
  have hrows : s.assignments.toList.map s.row =
      (s.assignments.toList.map s.valueRow).map Except.ok := by
    rw [List.map_map]
    apply List.map_congr_left
    intro a ha
    exact s.row_eq_ok (Enumeration.symbols_of_mem_toList ha)
  rw [tableBy, h.ok _ _ _ hrows]
  rfl

theorem table_eq_ok : s.table = .ok s.valueTable := by
  rw [table_eq_tableBy]
  exact s.tableBy_eq_ok collectsInOrder_mapM

theorem tableInParallel_eq_ok : s.tableInParallel = .ok s.valueTable := by
  rw [tableInParallel_eq_tableBy]
  exact s.tableBy_eq_ok collectsInOrder_collectTasks

theorem valueTable_size : s.valueTable.size = rowCount s.symbols.size := by
  rw [Table.size, valueTable, Table.ofRows, List.size_toArray, List.length_map, List.length_map,
    Enumeration.length_toList, assignments, Enumeration.size_all]

theorem valueTable_rows :
    (s.valueTable.rows.map fun row => (row.assignment, row.values)) =
      s.assignments.toList.map fun a => (a, s.formulas.map fun f => f.valueUnder a.toValuation) := by
  rw [valueTable, Table.rows_ofRows, List.map_map]
  rfl

/-! ## Values by number -/

theorem assignment?_eq_none {number : Nat} (h : rowCount s.symbols.size ≤ number) :
    s.assignment? number = none := by
  rw [assignment?, Assignment.ofNumber?, dif_neg (Nat.not_lt_of_le h)]

theorem exists_assignment? {number : Nat} (h : number < rowCount s.symbols.size) :
    ∃ a, s.assignment? number = some a ∧ a.symbols = s.symbols ∧ a.number = number := by
  rw [assignment?, Assignment.ofNumber?, dif_pos h]
  exact ⟨_, rfl, rfl, rfl⟩

theorem assignment?_eq_some_iff {number : Nat} {a : Assignment} :
    s.assignment? number = some a ↔ a.symbols = s.symbols ∧ a.number = number :=
  Assignment.ofNumber?_eq_some_iff

/-- The enumeration begins with the highest number. -/
theorem getElem?_assignments {number : Nat} (h : number < rowCount s.symbols.size) :
    s.assignments.toList[rowCount s.symbols.size - 1 - number]? = s.assignment? number := by
  have hentry := congrArg (fun entries => entries[rowCount s.symbols.size - 1 - number]?)
    s.assignments.toList_map_some
  have hfrom : rowCount s.symbols.size - 1 - (rowCount s.symbols.size - 1 - number) = number := by
    omega
  simp only [assignments, Enumeration.numbers_all, List.getElem?_map, getElem?_descending] at hentry
  rw [if_pos (by omega), hfrom, Option.map_some] at hentry
  obtain ⟨a, ha, heq⟩ := Option.map_eq_some_iff.1 hentry
  exact ha.trans heq

theorem valueTable_row? (number : Nat) :
    ((s.valueTable.row? number).map fun row => (row.assignment, row.values)) =
      (s.assignment? number).map fun a =>
        (a, s.formulas.map fun f => f.valueUnder a.toValuation) := by
  rw [Table.row?_eq, valueTable_size]
  by_cases h : number < rowCount s.symbols.size
  · rw [if_pos h, ← List.getElem?_map, valueTable_rows, List.getElem?_map, s.getElem?_assignments h]
  · rw [if_neg h, s.assignment?_eq_none (Nat.le_of_not_lt h)]
    rfl

theorem valueTable_value? (number formula : Nat) : s.valueTable.value? number formula =
    (s.assignment? number).bind fun a =>
      s.formulas[formula]?.map fun f => f.valueUnder a.toValuation := by
  have h := congrArg (fun row => row.bind fun (row : Assignment × List Bool) => row.2[formula]?)
    (s.valueTable_row? number)
  simp only [Option.bind_map, Function.comp_def, List.getElem?_map] at h
  exact h

theorem evaluateFormula?_eq {v : Valuation} (hv : v.Covers s.symbols) (formula : Nat) :
    s.evaluateFormula? formula v = s.formulas[formula]?.map fun f => .ok (f.valueUnder v) := by
  rw [evaluateFormula?]
  cases s.formulas[formula]? with
  | none => rfl
  | some f => exact congrArg some (f.evaluate_eq_valueUnder hv)

/-! ## What the table holds -/

/-- A table holds the values of the formulas of a session under the assignments to its symbols, and shows
    them by number, by row and by column. -/
structure Tabulates (s : Session) (t : Table) : Prop where
  symbols : t.symbols = s.symbols
  formulas : t.formulas = s.texts
  size : t.size = rowCount s.symbols.size
  value : ∀ i j, i < rowCount s.symbols.size → j < s.formulas.length →
    ∃ a value, s.assignment? i = some a ∧ s.evaluateFormula? j a.toValuation = some (.ok value) ∧
      t.value? i j = some value
  value_none : ∀ i j, ¬ (i < rowCount s.symbols.size ∧ j < s.formulas.length) → t.value? i j = none
  row_value : ∀ i j, ((t.row? i).bind fun row => row.values[j]?) = t.value? i j
  column_value : ∀ i j, ((t.column? j).bind fun c => c.value? i) = t.value? i j
  row : ∀ i, (t.row? i).map Row.assignment = s.assignment? i
  rows : t.rows.map some = (List.range (rowCount s.symbols.size)).reverse.map t.row?
  column : ∀ j, (t.column? j).isSome = true ↔ j < s.formulas.length
  entries : ∀ j c, t.column? j = some c →
    c.entries.map some = (List.range (rowCount s.symbols.size)).reverse.map fun i =>
      (s.assignment? i).bind fun a => (t.value? i j).map fun value => (a, value)
  /-- A row is cut out of the store, not beyond its end. -/
  row_in_store : ∀ place < t.size, (place + 1) * t.width ≤ t.results.size
  /-- A column visits places in the store. -/
  column_in_store : ∀ place < t.size, ∀ j < t.width, place * t.width + j < t.results.size

theorem valueTable_width : s.valueTable.width = s.formulas.length :=
  List.length_map _

/-- A column of the table lists the formula's values. -/
theorem entries_column_valueTable {formula : Nat} {f : Formula s.symbols}
    (hf : s.formulas[formula]? = some f) {c : Column}
    (hc : s.valueTable.column? formula = some c) :
    c.entries = s.assignments.toList.map fun a => (a, f.valueUnder a.toValuation) := by
  obtain ⟨hlt, rfl⟩ := Table.column?_eq_some_iff.1 hc
  refine (List.map_inj_right (Option.some_injective _)).1 ?_
  calc (Column.mk s.valueTable ⟨formula, hlt⟩).entries.map some
    _ = (s.valueTable.rows.map fun row => (row.assignment, row.values)).map fun entry =>
          entry.2[formula]?.map fun value => (entry.1, value) := by
        rw [Column.entries_map_some, List.map_map]
        rfl
    _ = _ := by
        rw [valueTable_rows, List.map_map, List.map_map]
        apply List.map_congr_left
        intro a _
        simp [hf]

theorem valueTable_entries {formula : Nat} {c : Column}
    (hc : s.valueTable.column? formula = some c) :
    c.entries.map some = (List.range (rowCount s.symbols.size)).reverse.map fun number =>
      (s.assignment? number).bind fun a =>
        (s.valueTable.value? number formula).map fun value => (a, value) := by
  obtain ⟨hlt, -⟩ := Table.column?_eq_some_iff.1 hc
  have hwidth : formula < s.formulas.length := s.valueTable_width ▸ hlt
  obtain ⟨f, hf⟩ : ∃ f, s.formulas[formula]? = some f := ⟨_, List.getElem?_eq_getElem hwidth⟩
  calc c.entries.map some
    _ = (s.assignments.toList.map some).map fun a? =>
          a?.map fun a => (a, f.valueUnder a.toValuation) := by
        rw [s.entries_column_valueTable hf hc, List.map_map, List.map_map]
        rfl
    _ = (List.range (rowCount s.symbols.size)).reverse.map fun number =>
          (s.assignment? number).map fun a => (a, f.valueUnder a.toValuation) := by
        rw [assignments, Enumeration.toList_map_some, Enumeration.numbers_all,
          ← reverse_descending_zero, List.reverse_reverse, List.map_map]
        rfl
    _ = _ := by
        apply List.map_congr_left
        intro number _
        rw [valueTable_value?, hf]
        cases s.assignment? number <;> rfl

theorem tabulates_valueTable : Tabulates s s.valueTable where
  symbols := rfl
  formulas := rfl
  size := s.valueTable_size
  value := by
    intro i j hi hj
    obtain ⟨a, ha, hsymbols, -⟩ := s.exists_assignment? hi
    refine ⟨a, s.formulas[j].valueUnder a.toValuation, ha, ?_, ?_⟩
    · rw [s.evaluateFormula?_eq (s.covers_of_symbols_eq hsymbols), List.getElem?_eq_getElem hj]
      rfl
    · rw [valueTable_value?, ha, List.getElem?_eq_getElem hj]
      rfl
  value_none := by
    intro i j h
    rw [valueTable_value?]
    by_cases hi : i < rowCount s.symbols.size
    · have hj : s.formulas.length ≤ j := Nat.le_of_not_lt fun hj => h ⟨hi, hj⟩
      rw [List.getElem?_eq_none hj]
      cases s.assignment? i <;> rfl
    · rw [s.assignment?_eq_none (Nat.le_of_not_lt hi)]
      rfl
  row_value := fun _ _ => rfl
  column_value := s.valueTable.column?_bind_value?
  row := by
    intro i
    have h := congrArg (Option.map Prod.fst) (s.valueTable_row? i)
    rw [Option.map_map, Option.map_map] at h
    simpa [Function.comp_def] using h
  rows := by
    rw [← valueTable_size]
    exact s.valueTable.rows_map_some
  column := by
    intro j
    rw [Option.isSome_iff_exists, ← valueTable_width]
    simp only [Table.column?_eq_some_iff]
    exact ⟨fun ⟨_, h, _⟩ => h, fun h => ⟨_, h, rfl⟩⟩
  entries := fun _ _ hc => s.valueTable_entries hc
  row_in_store := by
    intro place hplace
    rw [s.valueTable.size_results]
    exact Nat.mul_le_mul_right _ hplace
  column_in_store := fun _ hplace _ hj => s.valueTable.place_lt hplace hj

/-- A session has a table, and the table holds the value of each formula under each assignment. Evaluating
    the rows in parallel makes the same table, however the work is spread, as long as the results are
    handed over in order. -/
theorem table_tabulates :
    ∃ t, s.table = .ok t ∧ Tabulates s t ∧ s.tableInParallel = .ok t ∧
      ∀ collect : (Assignment → Except Rejection (Row s.texts.length)) → List Assignment →
        Except Rejection (List (Row s.texts.length)),
        CollectsInOrder collect → s.tableBy collect = .ok t := by
  refine ⟨s.valueTable, ?_, s.tabulates_valueTable, ?_, fun collect h => s.tableBy_eq_ok h⟩
  · rw [table_eq_tableBy]
    exact s.tableBy_eq_ok collectsInOrder_mapM
  · rw [tableInParallel_eq_tableBy]
    exact s.tableBy_eq_ok collectsInOrder_collectTasks

/-- An implication is false under the assignment numbered two, and tasks find the same. -/
theorem table_tabulates_implication :
    ∃ (s : Session) (t : Table), SymbolSet.ofList ["p", "q"] = .ok s.symbols ∧ s.texts = ["p>q"] ∧
      s.table = .ok t ∧ s.tableBy collectTasks = .ok t ∧
      t.value? 2 0 = some false ∧ t.value? 2 1 = none := by
  let s : Session := {
    symbols := { names := ['p', 'q']
                 distinct := by decide
                 usable := List.forall_mem_cons.2 ⟨rfl, List.forall_mem_singleton.2 rfl⟩
                 nonempty := by decide
                 few := by decide }
    formulas := [{ text := "p>q"
                   program := ⟨[.symbol ⟨'p', 0⟩, .symbol ⟨'q', 1⟩, .operator (.binary .implies)]⟩
                   converted := rfl
                   checked := rfl }] }
  obtain ⟨t, ht, htab, -, hby⟩ := s.table_tabulates
  refine ⟨s, t, rfl, rfl, ht, hby _ collectsInOrder_collectTasks, ?_, ?_⟩
  · obtain ⟨a, value, ha, hvalue, htable⟩ := htab.value 2 0 (by decide) (by decide)
    cases ha
    cases hvalue
    exact htable.trans (congrArg some (by decide))
  · exact htab.value_none 2 1 (by decide)

end Session

end TruthTables
