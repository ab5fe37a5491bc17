import TruthTables.Proofs.Session.Tabulation

set_option autoImplicit false

/-! # Summaries of a column

A summary of a column asks about the listed values only, one for each assignment. Yet it decides what
holds under every valuation with values for all symbols: such a valuation agrees with an assignment on
the declared symbols (`Assignment.toValuation_ofValuation`), and a formula looks up no others
(`Formula.evaluate_congr`). -/

namespace TruthTables

namespace Enumeration

/-- The enumeration has every assignment over its symbols. -/
theorem mem_toList_all {a : Assignment} {set : SymbolSet} :
    a ∈ (all set).toList ↔ a.symbols = set := by
  constructor
  · exact symbols_of_mem_toList
  · rintro rfl
    have hnumber : a.number ∈ (all a.symbols).numbers := by
      rw [numbers_all]
      exact mem_descending.2 ⟨Nat.zero_le _, a.number_lt⟩
    have hmem : some a ∈ (all a.symbols).toList.map some := by
      rw [toList_map_some]
      exact List.mem_map.2 ⟨a.number, hnumber, dif_pos a.number_lt⟩
    obtain ⟨a', ha', heq⟩ := List.mem_map.1 hmem
    exact Option.some.inj heq ▸ ha'

end Enumeration

namespace Formula

variable {set : SymbolSet} (f : Formula set)

/-- A formula has a value under all assignments exactly if it has it under all valuations. -/
theorem forall_valueUnder_iff (value : Bool) :
    (∀ a ∈ (Enumeration.all set).toList, f.valueUnder a.toValuation = value) ↔
      ∀ v : Valuation, v.Covers set → f.evaluate v = .ok value := by
  constructor
  · intro h v hv
    -- the assignment with the same values is on the list
    let a := Assignment.ofValuation set v
    calc f.evaluate v
      _ = f.evaluate a.toValuation := (f.evaluate_congr (Assignment.toValuation_ofValuation hv)).symm
      _ = .ok (f.valueUnder a.toValuation) := f.evaluate_eq_valueUnder a.toValuation_covers
      _ = .ok value := by rw [h a (Enumeration.mem_toList_all.2 rfl)]
  · intro h a ha
    have hcovers : a.toValuation.Covers set :=
      Enumeration.mem_toList_all.1 ha ▸ a.toValuation_covers
    exact Except.ok.inj ((f.evaluate_eq_valueUnder hcovers).symm.trans (h _ hcovers))

/-- What is not false under all valuations is true under one. -/
theorem not_forall_evaluate_iff :
    (¬ ∀ v : Valuation, v.Covers set → f.evaluate v = .ok false) ↔
      ∃ v : Valuation, v.Covers set ∧ f.evaluate v = .ok true := by
  constructor
  · intro h
    obtain ⟨v, hv⟩ := not_forall.1 h
    obtain ⟨hcovers, hne⟩ := Classical.not_imp.1 hv
    obtain ⟨value, hvalue⟩ := f.exists_evaluate_eq_ok hcovers
    cases value with
    | true => exact ⟨v, hcovers, hvalue⟩
    | false => exact absurd hvalue hne
  · rintro ⟨v, hcovers, htrue⟩ h
    exact absurd (htrue.symm.trans (h v hcovers)) (by simp)

end Formula

namespace Session

/-! ## Columns that list the values of a formula -/

section

variable {s : Session} {f : Formula s.symbols} {c : Column}
variable (hentries : c.entries =
  s.assignments.toList.map fun a => (a, f.valueUnder a.toValuation))
include hentries

theorem isTautology_iff : c.isTautology = true ↔
    ∀ v : Valuation, v.Covers s.symbols → f.evaluate v = .ok true := by
  rw [← f.forall_valueUnder_iff, Column.isTautology, hentries]
  simp [assignments]

theorem isContradiction_iff : c.isContradiction = true ↔
    ∀ v : Valuation, v.Covers s.symbols → f.evaluate v = .ok false := by
  rw [← f.forall_valueUnder_iff, Column.isContradiction, hentries]
  simp [assignments]

theorem isSatisfiable_iff : c.isSatisfiable = true ↔
    ∃ v : Valuation, v.Covers s.symbols ∧ f.evaluate v = .ok true := by
  rw [← f.not_forall_evaluate_iff, ← isContradiction_iff hentries, Column.isSatisfiable]
  simp

/-- The models are some of the numbers of the enumeration, in its order. -/
theorem pairwise_models : c.models.Pairwise (· > ·) := by
  have hsub : c.models.Sublist (c.entries.map fun entry => entry.1.number) :=
    List.filter_sublist.map _
  have hnumbers : (c.entries.map fun entry => entry.1.number) = s.assignments.numbers := by
    rw [hentries, List.map_map]
    rfl
  rw [hnumbers, Enumeration.numbers_eq] at hsub
  exact pairwise_descending.sublist hsub

theorem mem_models_iff (number : Nat) :
    number ∈ c.models ↔ number < rowCount s.symbols.size ∧
      ∃ a, s.assignment? number = some a ∧ f.evaluate a.toValuation = .ok true := by
  simp only [assignment?_eq_some_iff]
  rw [Column.models, hentries]
  constructor
  · intro h
    obtain ⟨entry, hentry, rfl⟩ := List.mem_map.1 h
    obtain ⟨hmem, htrue⟩ := List.mem_filter.1 hentry
    obtain ⟨a, ha, rfl⟩ := List.mem_map.1 hmem
    have hsymbols : a.symbols = s.symbols := Enumeration.mem_toList_all.1 ha
    have hlt : a.number < rowCount s.symbols.size := by
      rw [← hsymbols]
      exact a.number_lt
    refine ⟨hlt, a, ⟨hsymbols, rfl⟩, ?_⟩
    rw [f.evaluate_eq_valueUnder (s.covers_of_symbols_eq hsymbols)]
    exact congrArg Except.ok htrue
  · rintro ⟨-, a, ⟨hsymbols, rfl⟩, hvalue⟩
    have htrue : f.valueUnder a.toValuation = true := by rw [Formula.valueUnder, hvalue]
    refine List.mem_map.2 ⟨(a, true), List.mem_filter.2 ⟨?_, rfl⟩, rfl⟩
    exact List.mem_map.2 ⟨a, Enumeration.mem_toList_all.2 hsymbols, by rw [htrue]⟩

end

/-! ## Columns of a session -/

/-- The summaries of a column tell what holds of a formula of a session under all valuations that give
    every symbol a value. The models are those of its numbered assignments under which it is true. -/
structure Decides (s : Session) (formula : Nat) (c : Column) : Prop where
  tautology : c.isTautology = true ↔
    ∀ v : Valuation, v.Covers s.symbols → s.evaluateFormula? formula v = some (.ok true)
  satisfiable : c.isSatisfiable = true ↔
    ∃ v : Valuation, v.Covers s.symbols ∧ s.evaluateFormula? formula v = some (.ok true)
  contradiction : c.isContradiction = true ↔
    ∀ v : Valuation, v.Covers s.symbols → s.evaluateFormula? formula v = some (.ok false)
  models_descend : c.models.Pairwise (· > ·)
  mem_models : ∀ number, number ∈ c.models ↔ number < rowCount s.symbols.size ∧
    ∃ a, s.assignment? number = some a ∧
      s.evaluateFormula? formula a.toValuation = some (.ok true)

theorem decides_column_valueTable (s : Session) {formula : Nat} {f : Formula s.symbols}
    (hf : s.formulas[formula]? = some f) {c : Column}
    (hc : s.valueTable.column? formula = some c) : s.Decides formula c := by
  have hentries := s.entries_column_valueTable hf hc
  have hevaluate : ∀ v value,
      s.evaluateFormula? formula v = some (.ok value) ↔ f.evaluate v = .ok value := by
    intro v value
    rw [evaluateFormula?, hf, Option.map_some, Option.some_inj]
  refine ⟨?_, ?_, ?_, pairwise_models hentries, ?_⟩
  · simpa only [hevaluate] using isTautology_iff hentries
  · simpa only [hevaluate] using isSatisfiable_iff hentries
  · simpa only [hevaluate] using isContradiction_iff hentries
  · simpa only [hevaluate] using mem_models_iff hentries

/-- A column of the table of a session decides validity, although it lists finitely many values. -/
theorem column_decides_validity (s : Session) :
    ∃ t, s.table = .ok t ∧ ∀ formula < s.formulas.length, ∃ c, t.column? formula = some c ∧
      s.Decides formula c := by
  refine ⟨s.valueTable, ?_, fun formula h => ?_⟩
  · rw [table_eq_tableBy]
    exact s.tableBy_eq_ok collectsInOrder_mapM
  · have hcolumn : (s.valueTable.column? formula).isSome = true :=
      (s.tabulates_valueTable.column formula).2 h
    obtain ⟨c, hc⟩ := Option.isSome_iff_exists.1 hcolumn
    exact ⟨c, hc, s.decides_column_valueTable (List.getElem?_eq_getElem h) hc⟩

/-- What follows from itself holds under every valuation, as the one column of a table tells. -/
theorem column_decides_validity_of_implication :
    ∃ (s : Session) (c : Column), SymbolSet.ofList ["p"] = .ok s.symbols ∧ s.texts = ["p>p"] ∧
      (∃ t, s.table = .ok t ∧ t.column? 0 = some c) ∧ c.isTautology = true ∧ s.Decides 0 c := by
  let p : Symbol := ⟨'p', 0⟩
  let s : Session := {
    symbols := { names := ['p']
                 distinct := by decide
                 usable := List.forall_mem_singleton.2 rfl
                 nonempty := by decide
                 few := by decide }
    formulas := [{ text := "p>p"
                   program := ⟨[.symbol p, .symbol p, .operator (.binary .implies)]⟩
                   converted := rfl
                   checked := rfl }] }
  obtain ⟨t, ht, hcolumns⟩ := column_decides_validity s
  obtain ⟨c, hc, hdecides⟩ := hcolumns 0 (by decide)
  refine ⟨s, c, rfl, rfl, ⟨t, ht, hc⟩, hdecides.tautology.2 fun v hv => ?_, hdecides⟩
  obtain ⟨value, hvalue⟩ := Option.isSome_iff_exists.1 (hv p (by decide))
  have himplies : Connective.implies.apply value value = true := by cases value <;> rfl
  show some (Postfix.evaluateFrom v [] 0 _) = _
  simp [Postfix.evaluateFrom, hvalue, Postfix.applyTo, himplies]

end Session

end TruthTables
