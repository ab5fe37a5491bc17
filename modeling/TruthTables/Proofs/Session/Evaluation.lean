import TruthTables.Proofs.Formula.Value
import TruthTables.Proofs.Session.Acceptance

set_option autoImplicit false

/-! # Values in a session

A session evaluates a text by its program, and a text with a tree has a value by that tree. The two never
differ: the program is the listing of the tree, and running it computes the value of the tree
(`Postfix.evaluate_postorder`), the cause why there is none included. All symbols are looked up, the
left ones first, so it does not matter where a symbol without a value stands. -/

namespace TruthTables

/-- The formula of a grammatical text, which has the values of the tree. -/
theorem Formula.exists_ofText_eq {set : SymbolSet} {text : String} {tokens : List Token} {e : Expr}
    (htokens : set.tokensOf text = .ok tokens) (h : Derives tokens e) :
    ∃ f : Formula set, ofText set text = .ok f ∧ f.text = text ∧ ∀ v, f.evaluate v = e.eval v := by
  obtain ⟨f, rfl⟩ := (exists_text_eq_iff text).2 ⟨tokens, htokens, h.check_eq_ok⟩
  refine ⟨f, (ofText_eq_ok_iff f.text f).2 ⟨h.checkText_eq_ok htokens, rfl⟩, rfl, fun v => ?_⟩
  rw [evaluate, f.program_eq htokens, h.ofTokens_eq, Postfix.evaluate_postorder]

namespace Session

section

variable (s : Session) (text : String) {v w : Valuation}

theorem evaluate_eq_ok_iff (value : Bool) : s.evaluate text v = .ok value ↔
    ∃ f, Formula.ofText s.symbols text = .ok f ∧ f.evaluate v = .ok value := by
  rw [evaluate]
  cases Formula.ofText s.symbols text with
  | error rejection => simp
  | ok f =>
      simp only [Formula.evaluateNamed, Except.ok.injEq, exists_eq_left']
      cases f.evaluate v <;> simp [Except.mapError]

/-- Where a text has a value, it keeps it under a valuation that says at least as much. -/
theorem evaluate_mono (h : ∀ sym ∈ s.symbols.symbols, ∀ b, v sym = some b → w sym = some b)
    {value : Bool} (hvalue : s.evaluate text v = .ok value) : s.evaluate text w = .ok value := by
  obtain ⟨f, hf, hvalue⟩ := (s.evaluate_eq_ok_iff text value).1 hvalue
  exact (s.evaluate_eq_ok_iff text value).2 ⟨f, hf, f.evaluate_mono h hvalue⟩

/-- The value of a text depends on the symbols that occur in it alone, and so does the cause why it has
    none. -/
theorem evaluate_congr_symbolsIn (h : ∀ sym ∈ s.symbols.symbolsIn text, v sym = w sym) :
    s.evaluate text v = s.evaluate text w := by
  rw [evaluate, evaluate]
  cases hf : Formula.ofText s.symbols text with
  | error rejection => rfl
  | ok f =>
      obtain ⟨-, rfl⟩ := (Formula.ofText_eq_ok_iff text f).1 hf
      simp only [Formula.evaluateNamed, f.evaluate_congr_symbolsIn h]

end

/-- The value of a text in a session is the value of its tree. If symbols have no value, then both ways
    report the first of them in the order of the text, wherever it stands; otherwise both give the same
    truth value. -/
theorem evaluate_follows_tree (s : Session) (text : String) (e : Expr)
    (h : Expr.ofText s.symbols text = .ok e) (v : Valuation) :
    s.evaluate text v = (e.eval v).mapError (.malformed text) ∧
    (∀ sym, e.symbols.find? (fun sym => (v sym).isNone) = some sym →
      e.eval v = .error (.unassigned sym.name) ∧
        s.evaluate text v = .error (.malformed text (.unassigned sym.name))) ∧
    ((∀ sym ∈ e.symbols, (v sym).isSome = true) →
      ∃ value, e.eval v = .ok value ∧ s.evaluate text v = .ok value) := by
  obtain ⟨d, htokens, htree, -⟩ := (Expr.ofText_eq_ok_iff e).1 h
  obtain ⟨f, hf, htext, hvalue⟩ := Formula.exists_ofText_eq htokens ⟨d, rfl, htree⟩
  have heval : s.evaluate text v = (e.eval v).mapError (.malformed text) := by
    rw [evaluate, hf]
    show (f.evaluate v).mapError (Rejection.malformed f.text) = _
    rw [hvalue, htext]
  refine ⟨heval, fun sym hsym => ?_, fun hall => ?_⟩
  · have herror : e.eval v = .error (.unassigned sym.name) :=
      (e.eval_eq_error_iff v _).2 ⟨sym, hsym, rfl⟩
    exact ⟨herror, by rw [heval, herror]; rfl⟩
  · cases hresult : e.eval v with
    | error cause =>
        obtain ⟨sym, hsym, -⟩ := (e.eval_eq_error_iff v cause).1 hresult
        have hmissing := List.find?_some hsym
        have hassigned := hall sym (List.mem_of_find?_eq_some hsym)
        rw [← Option.not_isSome, hassigned] at hmissing
        exact absurd hmissing (by decide)
    | ok value => exact ⟨value, rfl, by rw [heval, hresult]; rfl⟩

/-- A true left side does not save a right side without a value. -/
theorem evaluate_reports_right_side :
    ∃ s e, ofTexts ["p", "q"] [] = .ok s ∧ Expr.ofText s.symbols "p|q" = .ok e ∧
      e.eval (.ofPairs [('p', true)]) = .error (.unassigned 'q') ∧
      s.evaluate "p|q" (.ofPairs [('p', true)]) = .error (.malformed "p|q" (.unassigned 'q')) := by
  let d : Derivation .formula := .operand
    (.extend (.operand (.operand (.symbol ⟨'p', 0⟩))) (.operand (.symbol ⟨'q', 1⟩)))
  have hfits : d.Fits 0 := by simp [d, Derivation.Fits, Derivation.nestings]
  obtain ⟨s, hs, htree⟩ :
      ∃ s, ofTexts ["p", "q"] [] = .ok s ∧ Expr.ofText s.symbols "p|q" = .ok d.tree :=
    ⟨_, rfl, (Expr.ofText_eq_ok_iff d.tree).2 ⟨d, rfl, rfl, hfits⟩⟩
  exact ⟨s, d.tree, hs, htree,
    (evaluate_follows_tree s "p|q" d.tree htree (.ofPairs [('p', true)])).2.1 ⟨'q', 1⟩ rfl⟩

end Session

end TruthTables
