import Mathlib.Data.List.Basic
import TruthTables.Formula
import TruthTables.Proofs.Assignment.Values
import TruthTables.Proofs.Formula.Text
import TruthTables.Proofs.Postfix.Conservation
import TruthTables.Proofs.Postfix.Machine

set_option autoImplicit false

/-! # Values of formulas

The program of a formula lists a tree (`Formula.exists_tree`), and this tree has the symbols that occur in
the text, all of which are declared. So a formula has a value wherever the declared symbols have values,
and its value depends on theirs alone. -/

namespace TruthTables

namespace Expr

/-- The listing of a tree has the symbols of the tree, in the same order. -/
theorem filterMap_symbol?_postorder (e : Expr) :
    e.postorder.filterMap Token.symbol? = e.symbols := by
  induction e with
  | var s => rfl
  | not e ih => simp [postorder, symbols, ih, Token.symbol?]
  | binary c l r ihl ihr => simp [postorder, symbols, ihl, ihr, Token.symbol?]

theorem eval_congr {e : Expr} {v w : Valuation} (h : ∀ s ∈ e.symbols, v s = w s) :
    e.eval v = e.eval w := by
  induction e with
  | var s => rw [eval, eval, h s (List.mem_singleton_self s)]
  | not e ih => rw [eval, eval, ih h]
  | binary c l r ihl ihr =>
      have hl : ∀ s ∈ l.symbols, v s = w s := fun s hs => h s (List.mem_append_left _ hs)
      have hr : ∀ s ∈ r.symbols, v s = w s := fun s hs => h s (List.mem_append_right _ hs)
      rw [eval, eval, ihl hl, ihr hr]

/-- A tree has a value exactly where its symbols have values. -/
theorem exists_eval_eq_ok_iff (e : Expr) (v : Valuation) :
    (∃ value, e.eval v = .ok value) ↔ ∀ s ∈ e.symbols, (v s).isSome = true := by
  have hnone : (∃ value, e.eval v = .ok value) ↔ e.symbols.find? (fun s => (v s).isNone) = none := by
    cases hfind : e.symbols.find? (fun s => (v s).isNone) with
    | some s => simp [(e.eval_eq_error_iff v _).2 ⟨s, hfind, rfl⟩]
    | none =>
        cases hresult : e.eval v with
        | ok value => simp
        | error cause =>
            obtain ⟨s, hs, -⟩ := (e.eval_eq_error_iff v cause).1 hresult
            exact absurd (hfind.symm.trans hs) (by simp)
  rw [hnone, List.find?_eq_none]
  simp [Option.isSome_iff_ne_none]

end Expr

/-! ## The symbols of a formula -/

namespace SymbolSet

variable {set : SymbolSet}

/-- The declared symbols in a text from left to right, each as often as it occurs. -/
def symbolsIn (set : SymbolSet) (text : String) : List Symbol :=
  text.toList.filterMap set.get?

theorem mem_symbols_of_mem_symbolsIn {text : String} {s : Symbol} (h : s ∈ set.symbolsIn text) :
    s ∈ set.symbols := by
  obtain ⟨c, -, hc⟩ := List.mem_filterMap.1 h
  exact mem_symbols_of_get? hc

/-- A symbol in a text is the one that its name stands for, and the text has this name. -/
theorem name_of_mem_symbolsIn {text : String} {s : Symbol} (h : s ∈ set.symbolsIn text) :
    s.name ∈ text.toList ∧ set.contains s.name = true ∧ set.get? s.name = some s := by
  obtain ⟨c, hc, hget⟩ := List.mem_filterMap.1 h
  obtain rfl := name_of_get? hget
  exact ⟨hc, by rw [contains_eq_isSome_get?, hget]; rfl, hget⟩

/-- The tokens of a text have the symbols that occur in the text, in the same order. -/
theorem filterMap_symbol?_of_tokensOf {text : String} {tokens : List Token}
    (h : set.tokensOf text = .ok tokens) : tokens.filterMap Token.symbol? = set.symbolsIn text := by
  calc tokens.filterMap Token.symbol?
    _ = (tokens.map some).filterMap fun t? => t?.bind Token.symbol? := by
        rw [List.filterMap_map]
        rfl
    _ = (text.toList.filter fun c => !Text.isBlank c).filterMap set.get? := by
        rw [← tokensOf_eq_ok_iff.1 h, List.filterMap_map]
        exact List.filterMap_congr fun c _ => set.token?_bind_symbol? c
    _ = set.symbolsIn text := by
        rw [List.filterMap_filter, symbolsIn]
        apply List.filterMap_congr
        intro c _
        cases hc : Text.isBlank c with
        | false => rfl
        | true => exact (set.get?_eq_none_of_not_contains (set.contains_eq_false_of_isBlank hc)).symm

end SymbolSet

namespace Formula

variable {set : SymbolSet}

/-- The program of a formula has the symbols of its text, in the same order. -/
theorem symbols_program (f : Formula set) : f.program.symbols = set.symbolsIn f.text := by
  obtain ⟨tokens, htokens, hprogram⟩ := Postfix.ofText_eq_ok_iff.1 f.converted
  rw [hprogram, Postfix.symbols_ofTokens, SymbolSet.filterMap_symbol?_of_tokensOf htokens]

/-- A formula has the values of a tree with the symbols that occur in its text. -/
theorem exists_tree (f : Formula set) :
    ∃ e : Expr, (∀ v, f.evaluate v = e.eval v) ∧ e.symbols = set.symbolsIn f.text := by
  obtain ⟨e, he⟩ := (Postfix.check_eq_ok_iff f.program).1 f.checked
  refine ⟨e, fun v => ?_, ?_⟩
  · rw [evaluate, ← Postfix.evaluate_postorder, ← he]
  · rw [← f.symbols_program, Postfix.symbols, he, Expr.filterMap_symbol?_postorder]

/-- A formula has no value exactly when a symbol in its text has none, and the first one is named. -/
theorem evaluate_eq_error_iff (f : Formula set) (v : Valuation) (cause : Malformed) :
    f.evaluate v = .error cause ↔
      ∃ s, (set.symbolsIn f.text).find? (fun s => (v s).isNone) = some s ∧
        cause = .unassigned s.name := by
  obtain ⟨e, heval, hsymbols⟩ := f.exists_tree
  rw [heval, ← hsymbols]
  exact e.eval_eq_error_iff v cause

/-- The value of a formula depends on the symbols in its text alone. -/
theorem evaluate_congr_symbolsIn (f : Formula set) {v w : Valuation}
    (h : ∀ s ∈ set.symbolsIn f.text, v s = w s) : f.evaluate v = f.evaluate w := by
  obtain ⟨e, heval, hsymbols⟩ := f.exists_tree
  rw [heval, heval]
  exact Expr.eval_congr fun s hs => h s (hsymbols ▸ hs)

theorem evaluate_congr (f : Formula set) {v w : Valuation} (h : ∀ s ∈ set.symbols, v s = w s) :
    f.evaluate v = f.evaluate w :=
  f.evaluate_congr_symbolsIn fun s hs => h s (SymbolSet.mem_symbols_of_mem_symbolsIn hs)

/-- A formula has a value exactly where the symbols in its text have values. -/
theorem exists_evaluate_eq_ok_iff (f : Formula set) (v : Valuation) :
    (∃ value, f.evaluate v = .ok value) ↔ ∀ s ∈ set.symbolsIn f.text, (v s).isSome = true := by
  obtain ⟨e, heval, hsymbols⟩ := f.exists_tree
  rw [heval, ← hsymbols]
  exact e.exists_eval_eq_ok_iff v

/-- Where a formula has a value, it keeps it under a valuation that says at least as much. -/
theorem evaluate_mono (f : Formula set) {v w : Valuation}
    (h : ∀ s ∈ set.symbols, ∀ b, v s = some b → w s = some b) {value : Bool}
    (hvalue : f.evaluate v = .ok value) : f.evaluate w = .ok value := by
  have hsome := (f.exists_evaluate_eq_ok_iff v).1 ⟨value, hvalue⟩
  rw [← hvalue]
  apply f.evaluate_congr_symbolsIn
  intro s hs
  obtain ⟨b, hb⟩ := Option.isSome_iff_exists.1 (hsome s hs)
  rw [hb, h s (SymbolSet.mem_symbols_of_mem_symbolsIn hs) b hb]

/-- A formula has a value wherever the declared symbols have values. -/
theorem exists_evaluate_eq_ok (f : Formula set) {v : Valuation} (hv : v.Covers set) :
    ∃ value, f.evaluate v = .ok value := by
  rw [exists_evaluate_eq_ok_iff]
  exact fun s hs => hv s (SymbolSet.mem_symbols_of_mem_symbolsIn hs)

/-- The truth value of a formula under a valuation that covers the declared symbols. -/
def valueUnder (f : Formula set) (v : Valuation) : Bool :=
  match f.evaluate v with
  | .ok value => value
  | .error _ => false

theorem evaluate_eq_valueUnder (f : Formula set) {v : Valuation} (hv : v.Covers set) :
    f.evaluate v = .ok (f.valueUnder v) := by
  obtain ⟨value, hvalue⟩ := f.exists_evaluate_eq_ok hv
  rw [valueUnder, hvalue]

theorem evaluateAll_eq_ok {v : Valuation} (hv : v.Covers set) (fs : List (Formula set)) :
    evaluateAll v fs = .ok ⟨fs.map fun f => f.valueUnder v, List.length_map _⟩ := by
  induction fs with
  | nil => rfl
  | cons f fs ih =>
      have hfirst : f.evaluateNamed v = .ok (f.valueUnder v) := by
        rw [evaluateNamed, f.evaluate_eq_valueUnder hv]
        rfl
      simp only [evaluateAll, hfirst, ih, List.map_cons]

end Formula

end TruthTables
