import TruthTables.Proofs.Formula.Text
import TruthTables.Proofs.Session.Tabulation
import TruthTables.Proofs.Table.Layout
import TruthTables.Proofs.Text.Csv
import TruthTables.Table.Csv

set_option autoImplicit false

/-! # Printed tables

A session's table is printed in two ways, and neither loses anything. The comma-separated values are read
back by the rules of that format, whatever characters the symbols and the texts of the formulas have. In
the aligned text every value stands below the name of its column, as long as each name fits on a line. Both
show the same rows (`HoldsRow`): those of the assignments from the highest number down. -/

namespace TruthTables

/-- A formula is not blank: a text without tokens is no formula. -/
theorem Formula.exists_not_blank {symbols : SymbolSet} (f : Formula symbols) :
    ∃ c ∈ f.text.toList, Text.isBlank c = false := by
  obtain ⟨tokens, htokens, hprogram⟩ := Postfix.ofText_eq_ok_iff.1 f.converted
  have hne : tokens ≠ [] := by
    rintro rfl
    have hchecked := f.checked
    rw [hprogram] at hchecked
    exact absurd hchecked (by decide)
  have hwritten := SymbolSet.tokensOf_eq_ok_iff.1 htokens
  have hsolid : (f.text.toList.filter fun c => !Text.isBlank c) ≠ [] := by
    intro hnil
    rw [hnil, List.map_nil, eq_comm, List.map_eq_nil_iff] at hwritten
    exact hne hwritten
  obtain ⟨c, hc⟩ := List.exists_mem_of_ne_nil _ hsolid
  obtain ⟨hmem, hblank⟩ := List.mem_filter.1 hc
  exact ⟨c, hmem, by simpa using hblank⟩

namespace Table

variable (t : Table)

theorem headers_ne_nil : t.headers ≠ [] := by
  rw [headers]
  exact List.append_ne_nil_of_left_ne_nil (mt List.map_eq_nil_iff.1 t.symbols.nonempty) _

/-- A table has a column for each symbol, so it has columns. -/
theorem ne_nil_of_mem_csvRecords {fields : List (List Char)} (h : fields ∈ t.csvRecords) :
    fields ≠ [] := by
  rcases List.mem_cons.1 h with rfl | h
  · exact t.headers_ne_nil
  obtain ⟨row, -, rfl⟩ := List.mem_map.1 h
  have hvalues : row.assignment.values ≠ [] := by
    rw [← List.length_pos_iff, Assignment.length_values]
    exact row.assignment.symbols.size_pos
  exact mt List.map_eq_nil_iff.1 (List.append_ne_nil_of_left_ne_nil hvalues _)

/-- The comma-separated values of any table are read back. -/
theorem decode_csv : Text.Csv.decode t.csv.toList = some t.csvRecords := by
  rw [csv, String.toList_ofList]
  exact Text.Csv.decode_encode fun _ => t.ne_nil_of_mem_csvRecords

end Table

namespace Session

variable (s : Session)

/-! ## Names and rows -/

/-- The names of the columns: the symbols, then the texts of the formulas. -/
def headers : List (List Char) :=
  s.symbols.names.map (fun name => [name]) ++ s.texts.map String.toList

/-- The values in the row of an assignment: those of the symbols, then those of the formulas. -/
structure HoldsRow (t : Table) (number : Nat) (values : List Bool) : Prop where
  row : ∃ row, t.row? number = some row ∧ s.assignment? number = some row.assignment ∧
    (∀ j, s.evaluateFormula? j row.assignment.toValuation = row.values[j]?.map .ok) ∧
    values = row.assignment.values ++ row.values
  length : values.length = s.symbols.size + s.formulas.length

theorem length_headers : s.headers.length = s.symbols.size + s.formulas.length := by
  rw [headers, List.length_append, List.length_map, List.length_map, texts, List.length_map]
  rfl

theorem headers_ne_nil : s.headers ≠ [] :=
  s.valueTable.headers_ne_nil

theorem mem_headers {header : List Char} (h : header ∈ s.headers) :
    (∃ name ∈ s.symbols.names, header = [name]) ∨ ∃ f ∈ s.formulas, header = f.text.toList := by
  rcases List.mem_append.1 h with hsymbol | hformula
  · obtain ⟨name, hname, rfl⟩ := List.mem_map.1 hsymbol
    exact .inl ⟨name, hname, rfl⟩
  · obtain ⟨text, htext, rfl⟩ := List.mem_map.1 hformula
    obtain ⟨f, hf, rfl⟩ := List.mem_map.1 htext
    exact .inr ⟨f, hf, rfl⟩

theorem exists_not_blank_of_mem_headers {header : List Char} (h : header ∈ s.headers) :
    ∃ c ∈ header, Text.isBlank c = false := by
  rcases s.mem_headers h with ⟨name, hname, rfl⟩ | ⟨f, -, rfl⟩
  · exact ⟨name, List.mem_singleton_self _, (isUsable_iff.1 (s.symbols.usable name hname)).1⟩
  · exact f.exists_not_blank

theorem lineFeed_not_mem_headers (htexts : ∀ text ∈ s.texts, '\n' ∉ text.toList) {header : List Char}
    (h : header ∈ s.headers) : '\n' ∉ header := by
  rcases s.mem_headers h with ⟨name, hname, rfl⟩ | ⟨f, hf, rfl⟩
  · intro hmem
    rw [← List.mem_singleton.1 hmem] at hname
    exact absurd (s.symbols.usable '\n' hname) (by decide)
  · exact htexts f.text (List.mem_map_of_mem hf)

theorem length_rows_valueTable : s.valueTable.rows.length = 2 ^ s.symbols.size := by
  rw [Table.length_rows, valueTable_size]
  rfl

/-- The rows of the table are those of the assignments, from the highest number down. -/
theorem exists_row {k : Nat} (h : k < 2 ^ s.symbols.size) :
    ∃ row, s.valueTable.rows[k]? = some row ∧
      s.HoldsRow s.valueTable (2 ^ s.symbols.size - 1 - k) (Table.rowValues row) := by
  have hsize : s.valueTable.size = 2 ^ s.symbols.size := s.valueTable_size
  have hlt : 2 ^ s.symbols.size - 1 - k < rowCount s.symbols.size := by
    rw [← valueTable_size, hsize]
    omega
  obtain ⟨a, ha, hsymbols, -⟩ := s.exists_assignment? hlt
  have hentry := s.valueTable_row? (2 ^ s.symbols.size - 1 - k)
  rw [ha, Option.map_some] at hentry
  obtain ⟨row, hrow, hshown⟩ := Option.map_eq_some_iff.1 hentry
  obtain ⟨rfl, hvalues⟩ := Prod.mk.inj hshown
  refine ⟨row, ?_, ⟨row, hrow, ha, fun j => ?_, rfl⟩, ?_⟩
  · have hplace : 2 ^ s.symbols.size - 1 - (2 ^ s.symbols.size - 1 - k) = k := by omega
    rwa [Table.row?_eq, hsize, if_pos (by omega), hplace] at hrow
  · rw [s.evaluateFormula?_eq (s.covers_of_symbols_eq hsymbols), hvalues, List.getElem?_map,
      Option.map_map]
    rfl
  · rw [Table.rowValues, List.length_append, Assignment.length_values, hsymbols, row.length_values,
      valueTable_width]

/-! ## Comma-separated values -/

/-- Records that list a table: the names of the columns, then the row of each assignment in ones and
    zeros. -/
structure Lists (t : Table) (records : List (List (List Char))) : Prop where
  count : records.length = 2 ^ s.symbols.size + 1
  header : records[0]? = some s.headers
  row : ∀ k < 2 ^ s.symbols.size, ∃ values, s.HoldsRow t (2 ^ s.symbols.size - 1 - k) values ∧
    records[k + 1]? = some (values.map fun value => [Table.digit value])

theorem lists_csvRecords : s.Lists s.valueTable s.valueTable.csvRecords where
  count := by
    rw [Table.csvRecords, List.length_cons, List.length_map, length_rows_valueTable]
  header := rfl
  row := by
    intro k hk
    obtain ⟨row, hrow, hholds⟩ := s.exists_row hk
    refine ⟨Table.rowValues row, hholds, ?_⟩
    rw [Table.csvRecords, List.getElem?_cons_succ, List.getElem?_map, hrow]
    rfl

/-- The comma-separated values of a session's table are read back, and what is read lists the table. No
    other records could have been written like this, and whoever writes these by the rules, with quotes
    where there need not be any, is read in the same way. -/
theorem csv_reads_back : ∃ t records, s.table = .ok t ∧ s.tableInParallel = .ok t ∧
    Text.Csv.decode t.csv.toList = some records ∧ s.Lists t records ∧
    (∀ other, Text.Csv.Writes other t.csv.toList ↔ other = records) ∧
    ∀ text, Text.Csv.Writes records text → Text.Csv.decode text = some records := by
  refine ⟨s.valueTable, s.valueTable.csvRecords, s.table_eq_ok, s.tableInParallel_eq_ok,
    s.valueTable.decode_csv, s.lists_csvRecords, fun other => ?_, fun _ => Text.Csv.decode_of_writes⟩
  rw [← Text.Csv.decode_eq_some_iff, Table.decode_csv, Option.some_inj, eq_comm]

/-- A comma, a quote and a line feed in the names are no obstacle, and a writer that puts every field
    between quotes is read in the same way. -/
theorem csv_reads_back_separators : ∃ (s : Session) (t : Table) (records : List (List (List Char))),
    SymbolSet.ofList [",", "\""] = .ok s.symbols ∧ s.texts = [",^\n\""] ∧ s.table = .ok t ∧
    Text.Csv.decode t.csv.toList = some records ∧ records.length = 5 ∧
    records[0]? = some [[','], ['"'], [',', '^', '\n', '"']] ∧
    Text.Csv.decode (Text.Csv.encodeWith (fun field => '"' :: Text.Csv.doubled field ++ ['"']) records) =
      some records := by
  let s : Session := {
    symbols := { names := [',', '"']
                 distinct := by decide
                 usable := List.forall_mem_cons.2 ⟨rfl, List.forall_mem_singleton.2 rfl⟩
                 nonempty := by decide
                 few := by decide }
    formulas := [{ text := ",^\n\""
                   program := ⟨[.symbol ⟨',', 0⟩, .symbol ⟨'"', 1⟩, .operator (.binary .and)]⟩
                   converted := rfl
                   checked := rfl }] }
  obtain ⟨t, records, ht, -, hread, hlists, hother, hany⟩ := s.csv_reads_back
  have hwritten : Text.Csv.Writes records t.csv.toList := (hother records).2 rfl
  have hquoted := Text.Csv.writes_encodeWith Text.Csv.WritesField.quoted hwritten.ne_nil
  exact ⟨s, t, records, rfl, rfl, ht, hread, hlists.count, hlists.header.trans (by decide),
    hany _ hquoted⟩

/-! ## Aligned text -/

/-- Lines that show a table: the names of the columns, the rule, then the row of each assignment. -/
structure Aligns (t : Table) (lines : List (List Char)) : Prop where
  count : lines.length = 2 ^ s.symbols.size + 2
  names : ∃ line, lines[0]? = some line ∧ Table.Layout.NamesLine s.headers line
  rule : ∃ line, lines[1]? = some line ∧ Table.Layout.RuleLine s.headers line
  row : ∀ k < 2 ^ s.symbols.size, ∃ line values, lines[k + 2]? = some line ∧
    s.HoldsRow t (2 ^ s.symbols.size - 1 - k) values ∧ Table.Layout.RowLine s.headers values line

theorem aligns_layoutLines : s.Aligns s.valueTable s.valueTable.layoutLines where
  count := by
    rw [Table.layoutLines, List.length_cons, List.length_cons, List.length_map, length_rows_valueTable]
  names := ⟨_, rfl, Table.Layout.namesLine_trimEnd s.headers_ne_nil
    fun _ => s.exists_not_blank_of_mem_headers⟩
  rule := ⟨_, rfl, Table.Layout.ruleLine_rule s.headers⟩
  row := by
    intro k hk
    obtain ⟨row, hrow, hholds⟩ := s.exists_row hk
    have hlength : s.headers.length = (Table.rowValues row).length :=
      s.length_headers.trans hholds.length.symm
    refine ⟨_, Table.rowValues row, ?_, hholds, Table.Layout.rowLine_trimEnd hlength s.headers_ne_nil⟩
    rw [Table.layoutLines, List.getElem?_cons_succ, List.getElem?_cons_succ, List.getElem?_map, hrow]
    rfl

/-- If no text of a formula holds a line feed, the aligned text of a session's table is made of lines that
    show the table. -/
theorem layout_aligns (h : ∀ text ∈ s.texts, '\n' ∉ text.toList) :
    ∃ t lines, s.table = .ok t ∧ s.tableInParallel = .ok t ∧ t.layout.toList = Text.unlines lines ∧
      (∀ line ∈ lines, '\n' ∉ line) ∧ Text.lines t.layout.toList = lines ∧ s.Aligns t lines := by
  have hheaders : ∀ header ∈ s.valueTable.headers, '\n' ∉ header :=
    fun _ => s.lineFeed_not_mem_headers h
  exact ⟨s.valueTable, s.valueTable.layoutLines, s.table_eq_ok, s.tableInParallel_eq_ok,
    String.toList_ofList, fun line hline => (Table.isLine_of_mem_layoutLines hheaders line hline).1,
    Table.lines_layout hheaders, s.aligns_layoutLines⟩

/-- The blank behind the only formula is trimmed from the line of names, but its column is no narrower. -/
theorem layout_aligns_implication : ∃ (s : Session) (t : Table) (lines : List (List Char)),
    SymbolSet.ofList ["p", "q"] = .ok s.symbols ∧ s.texts = ["p>q "] ∧
    (∀ text ∈ s.texts, '\n' ∉ text.toList) ∧ s.table = .ok t ∧ t.layout.toList = Text.unlines lines ∧
    lines.length = 6 ∧ (lines[0]?.map fun cs => cs.drop 6) = some ['p', '>', 'q'] ∧
    (lines[1]?.map fun cs => cs.drop 6) = some ['-', '-', '-', '-'] ∧
    (lines[3]?.bind fun cs => cs[6]?) = some 'F' := by
  let s : Session := {
    symbols := { names := ['p', 'q']
                 distinct := by decide
                 usable := List.forall_mem_cons.2 ⟨rfl, List.forall_mem_singleton.2 rfl⟩
                 nonempty := by decide
                 few := by decide }
    formulas := [{ text := "p>q "
                   program := ⟨[.symbol ⟨'p', 0⟩, .symbol ⟨'q', 1⟩, .operator (.binary .implies)]⟩
                   converted := rfl
                   checked := rfl }] }
  have htexts : ∀ text ∈ s.texts, '\n' ∉ text.toList := List.forall_mem_singleton.2 (by decide)
  obtain ⟨t, lines, ht, -, hlayout, -, -, haligns⟩ := s.layout_aligns htexts
  refine ⟨s, t, lines, rfl, rfl, htexts, ht, hlayout, haligns.count, ?_, ?_, ?_⟩
  · obtain ⟨line, hline, hnames⟩ := haligns.names
    have hlast := hnames.last 2 "p>q ".toList (by decide) (by decide)
    rw [hline]
    exact congrArg some hlast
  · obtain ⟨line, hline, hrule⟩ := haligns.rule
    have hlast := hrule.last 2 "p>q ".toList (by decide) (by decide)
    rw [hline]
    exact congrArg some hlast
  · obtain ⟨line, values, hline, hholds, hrow⟩ := haligns.row 1 (by decide)
    obtain ⟨⟨a, results, _⟩, -, ha, hvalue, hvalues⟩ := hholds.row
    cases ha
    -- the binary digits of two are the values of the symbols
    have hfalse : Connective.implies.apply (Nat.testBit 2 1) (Nat.testBit 2 0) = false := by decide
    have hresult : results[0]? = some false := by
      obtain ⟨result, hresult, heq⟩ := Option.map_eq_some_iff.1 (hvalue 0).symm
      cases heq
      exact hresult.trans (congrArg some hfalse)
    rw [hline]
    exact hrow.cell 2 false (hvalues ▸ hresult)

end Session

end TruthTables
