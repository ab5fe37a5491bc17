import TruthTables.Proofs.Formula.Value

set_option autoImplicit false

/-! # What the check predicts

The check of a program never sees a value, and evaluation never counts its stack in advance. Still the one
predicts the other: at every token both take the same branch, as long as the height that the check counts
is the height of the stack (`checkFrom_operator`), and only a symbol without a value can part them. So under
a valuation of all symbols they fail alike. Otherwise they run side by side up to the first symbol without
a value, where evaluation ends for good. What the check finds behind this place is never reported. -/

namespace TruthTables

/-- The cause names a token in front of the given position. -/
def Malformed.IsBefore (limit : Nat) : Malformed → Prop
  | .missingOperand _ position => position < limit
  | .unexpectedToken _ position => position < limit
  | .leftover _ | .unassigned _ | .unexpectedEnd | .tooDeep => False

theorem Malformed.IsBefore.mono {m n : Nat} {cause : Malformed} (h : cause.IsBefore m) (hmn : m ≤ n) :
    cause.IsBefore n := by
  cases cause with
  | missingOperand o position => exact Nat.lt_of_lt_of_le h hmn
  | unexpectedToken t position => exact Nat.lt_of_lt_of_le h hmn
  | _ => exact h

namespace Postfix

variable {v : Valuation}

/-! ## One operator -/

/-- At an operator both runs stop for want of operands, or both go on upon a stack of equal height. -/
theorem checkFrom_operator (v : Valuation) (o : Operator) (stack : List Bool) (position : Nat)
    (rest : List Token) :
    (checkFrom stack.length position (.operator o :: rest) = .error (.missingOperand o position) ∧
      evaluateFrom v stack position (.operator o :: rest) = .error (.missingOperand o position)) ∨
    ∃ stack' : List Bool,
      checkFrom stack.length position (.operator o :: rest) =
        checkFrom stack'.length (position + 1) rest ∧
      evaluateFrom v stack position (.operator o :: rest) =
        evaluateFrom v stack' (position + 1) rest := by
  rw [checkFrom, evaluateFrom]
  cases happly : applyTo o stack with
  | none =>
      left
      rw [if_pos ((applyTo_eq_none_iff o stack).1 happly)]
      exact ⟨rfl, rfl⟩
  | some stack' =>
      right
      have hheight : ¬ stack.length < o.arity := by
        rw [← applyTo_eq_none_iff, happly]
        simp
      rw [if_neg hheight, ← length_applyTo happly]
      exact ⟨stack', rfl, rfl⟩

/-! ## Valuations of all symbols -/

/-- Where every symbol has a value, both runs stop for the same cause or not at all. -/
theorem evaluateFrom_eq_error_iff {tokens : List Token}
    (hv : ∀ s, .symbol s ∈ tokens → (v s).isSome = true) (stack : List Bool) (position : Nat)
    (cause : Malformed) :
    evaluateFrom v stack position tokens = .error cause ↔
      checkFrom stack.length position tokens = .error cause := by
  induction tokens generalizing stack position with
  | nil => rcases stack with _ | ⟨_, _ | ⟨_, _⟩⟩ <;> simp [evaluateFrom, checkFrom]
  | cons token rest ih =>
      have hrest : ∀ s, .symbol s ∈ rest → (v s).isSome = true := by
        intro s hs
        exact hv s (List.mem_cons_of_mem _ hs)
      cases token with
      | symbol s =>
          obtain ⟨value, hvalue⟩ := Option.isSome_iff_exists.1 (hv s (List.mem_cons_self ..))
          rw [evaluateFrom, checkFrom, hvalue]
          exact ih hrest (value :: stack) (position + 1)
      | operator o =>
          rcases checkFrom_operator v o stack position rest with ⟨hc, he⟩ | ⟨stack', hc, he⟩
          · simp [hc, he]
          · rw [hc, he]
            exact ih hrest stack' (position + 1)
      | opening => simp [evaluateFrom, checkFrom]
      | closing => simp [evaluateFrom, checkFrom]

/-! ## A symbol without a value -/

/-- A run names no token that it has left behind. -/
theorem not_isBefore_of_checkFrom {height position : Nat} {tokens : List Token} {cause : Malformed}
    (h : checkFrom height position tokens = .error cause) : ¬ cause.IsBefore position := by
  induction tokens generalizing height position with
  | nil =>
      rw [checkFrom] at h
      split at h
      · exact absurd h (by simp)
      · cases h
        simp [Malformed.IsBefore]
  | cons token rest ih =>
      have hlater : ∀ {height' : Nat}, checkFrom height' (position + 1) rest = .error cause →
          ¬ cause.IsBefore position := by
        intro height' hrest hbefore
        exact ih hrest (hbefore.mono (Nat.le_succ position))
      cases token with
      | symbol s => exact hlater h
      | operator o =>
          rw [checkFrom] at h
          split at h
          · cases h
            simp [Malformed.IsBefore]
          · exact hlater h
      | opening =>
          cases h
          simp [Malformed.IsBefore]
      | closing =>
          cases h
          simp [Malformed.IsBefore]

/-- Up to the first symbol without a value, evaluation finds what the check finds. There it stops. -/
theorem evaluateFrom_unassigned {front : List Token} {s : Symbol}
    (hfront : ∀ s', .symbol s' ∈ front → (v s').isSome = true) (hs : v s = none)
    (behind : List Token) (stack : List Bool) (position : Nat) :
    (∃ cause, checkFrom stack.length position (front ++ .symbol s :: behind) = .error cause ∧
      cause.IsBefore (position + front.length) ∧
      evaluateFrom v stack position (front ++ .symbol s :: behind) = .error cause) ∨
    ((∀ cause, checkFrom stack.length position (front ++ .symbol s :: behind) = .error cause →
        ¬ cause.IsBefore (position + front.length)) ∧
      evaluateFrom v stack position (front ++ .symbol s :: behind) =
        .error (.unassigned s.name)) := by
  induction front generalizing stack position with
  | nil =>
      right
      constructor
      · intro cause hcheck hbefore
        -- the check goes on behind the symbol
        have hlater : checkFrom (stack.length + 1) (position + 1) behind = .error cause := hcheck
        exact not_isBefore_of_checkFrom hlater (hbefore.mono (Nat.le_succ position))
      · show evaluateFrom v stack position (.symbol s :: behind) = _
        rw [evaluateFrom, hs]
  | cons token front ih =>
      have hrest : ∀ s', .symbol s' ∈ front → (v s').isSome = true := by
        intro s' hs'
        exact hfront s' (List.mem_cons_of_mem _ hs')
      have hlength : position + (token :: front).length = position + 1 + front.length := by
        rw [List.length_cons]
        omega
      have hhere : position < position + (token :: front).length := by
        rw [List.length_cons]
        omega
      rw [List.cons_append]
      cases token with
      | symbol s' =>
          obtain ⟨value, hvalue⟩ := Option.isSome_iff_exists.1 (hfront s' (List.mem_cons_self ..))
          rw [checkFrom, evaluateFrom, hvalue, hlength]
          exact ih hrest (value :: stack) (position + 1)
      | operator o =>
          rcases checkFrom_operator v o stack position (front ++ .symbol s :: behind) with
            ⟨hc, he⟩ | ⟨stack', hc, he⟩
          · exact Or.inl ⟨_, hc, hhere, he⟩
          · rw [hc, he, hlength]
            exact ih hrest stack' (position + 1)
      | opening => exact Or.inl ⟨.unexpectedToken .opening position, rfl, hhere, by simp [evaluateFrom]⟩
      | closing => exact Or.inl ⟨.unexpectedToken .closing position, rfl, hhere, by simp [evaluateFrom]⟩

/-- The token is a symbol without a value. -/
def lacksValue (v : Valuation) : Token → Bool
  | .symbol s => (v s).isNone
  | _ => false

/-- A program whose symbols do not all have values has a first symbol without. -/
theorem exists_first_unassigned {p : Postfix} (h : ¬ ∀ s ∈ p.symbols, (v s).isSome = true) :
    ∃ front s behind, p.tokens = front ++ .symbol s :: behind ∧
      (∀ s', .symbol s' ∈ front → (v s').isSome = true) ∧ v s = none := by
  obtain ⟨s, hs⟩ := not_forall.1 h
  obtain ⟨hmem, hnone⟩ := Classical.not_imp.1 hs
  have hsome : (p.tokens.find? (lacksValue v)).isSome = true := by
    rw [List.find?_isSome]
    exact ⟨.symbol s, Token.mem_filterMap_symbol?_iff.1 hmem, by simpa [lacksValue] using hnone⟩
  obtain ⟨t, ht⟩ := Option.isSome_iff_exists.1 hsome
  obtain ⟨hlacks, front, behind, htokens, hfront⟩ := List.find?_eq_some_iff_append.1 ht
  cases t with
  | symbol s' =>
      refine ⟨front, s', behind, htokens, ?_, Option.isNone_iff_eq_none.1 hlacks⟩
      intro s'' hs''
      simpa [lacksValue, Option.isSome_iff_ne_none] using hfront _ hs''
  | _ => exact absurd hlacks (by simp [lacksValue])

/-- What the check finds in front of the first symbol without a value is found, and nothing else. -/
theorem evaluate_of_first_unassigned {p : Postfix} {front behind : List Token} {s : Symbol}
    (htokens : p.tokens = front ++ .symbol s :: behind)
    (hfront : ∀ s', .symbol s' ∈ front → (v s').isSome = true) (hs : v s = none) :
    (∀ cause, p.check = .error cause → cause.IsBefore front.length →
      p.evaluate v = .error cause) ∧
    ((∀ cause, p.check = .error cause → ¬ cause.IsBefore front.length) →
      p.evaluate v = .error (.unassigned s.name)) := by
  have hrun := evaluateFrom_unassigned hfront hs behind [] 0
  rw [← htokens, Nat.zero_add] at hrun
  rcases hrun with ⟨cause, hcheck, hbefore, heval⟩ | ⟨hnone, heval⟩
  · constructor
    · intro cause' hcheck' _
      rwa [Except.error.inj (hcheck.symm.trans hcheck')] at heval
    · intro hnone
      exact absurd hbefore (hnone cause hcheck)
  · constructor
    · intro cause' hcheck' hbefore'
      exact absurd hbefore' (hnone cause' hcheck')
    · intro _
      exact heval

/-! ## Converted formulas -/

/-- Only a parenthesis is unexpected in a program. -/
theorem isParenthesis_of_checkFrom {height position i : Nat} {tokens : List Token} {t : Token}
    (h : checkFrom height position tokens = .error (.unexpectedToken t i)) :
    t ∈ tokens ∧ t.isParenthesis = true := by
  induction tokens generalizing height position with
  | nil =>
      rw [checkFrom] at h
      split at h <;> exact absurd h (by simp)
  | cons token rest ih =>
      cases token with
      | symbol s =>
          obtain ⟨hmem, ht⟩ := ih h
          exact ⟨List.mem_cons_of_mem _ hmem, ht⟩
      | operator o =>
          rw [checkFrom] at h
          split at h
          · exact absurd h (by simp)
          · obtain ⟨hmem, ht⟩ := ih h
            exact ⟨List.mem_cons_of_mem _ hmem, ht⟩
      | opening =>
          cases h
          exact ⟨List.mem_cons_self .., rfl⟩
      | closing =>
          cases h
          exact ⟨List.mem_cons_self .., rfl⟩

/-- Without parentheses the check finds nothing at a token but an operator that lacks an operand. -/
theorem exists_missingOperand_of_isBefore {p : Postfix} {cause : Malformed} {limit : Nat}
    (hplain : ∀ t ∈ p.tokens, t.isParenthesis = false) (hcheck : p.check = .error cause)
    (hbefore : cause.IsBefore limit) : ∃ o i, cause = .missingOperand o i ∧ i < limit := by
  cases cause with
  | missingOperand o i => exact ⟨o, i, rfl, hbefore⟩
  | unexpectedToken t i =>
      obtain ⟨hmem, ht⟩ := isParenthesis_of_checkFrom hcheck
      exact absurd ht (by simp [hplain t hmem])
  | _ => exact absurd hbefore (by simp [Malformed.IsBefore])

/-- The check predicts evaluation. If every symbol has a value, the two fail for the same cause or both
    succeed. Otherwise evaluation names the first symbol without a value, unless the check finds an
    operator without operands in front of it (or a parenthesis, but programs that were converted from a
    formula have none): then evaluation finds the same. So a formula, whose program has passed the check,
    has a value exactly where the symbols in its text have values, and otherwise the leftmost one without
    is named. -/
theorem check_predicts_evaluate (p : Postfix) (v : Valuation) :
    ((∀ s ∈ p.symbols, (v s).isSome = true) →
      ∀ cause, p.evaluate v = .error cause ↔ p.check = .error cause) ∧
    ((¬ ∀ s ∈ p.symbols, (v s).isSome = true) →
      ∃ front s behind, p.tokens = front ++ .symbol s :: behind ∧
        (∀ s', .symbol s' ∈ front → (v s').isSome = true) ∧ v s = none ∧
        (∀ o i, p.check = .error (.missingOperand o i) → i < front.length →
          p.evaluate v = .error (.missingOperand o i)) ∧
        (∀ t i, p.check = .error (.unexpectedToken t i) → i < front.length →
          p.evaluate v = .error (.unexpectedToken t i)) ∧
        ((∀ t ∈ p.tokens, t.isParenthesis = false) →
          (¬ ∃ o i, p.check = .error (.missingOperand o i) ∧ i < front.length) →
            p.evaluate v = .error (.unassigned s.name))) ∧
    (∀ tokens, ∀ t ∈ (ofTokens tokens).tokens, t.isParenthesis = false) ∧
    ∀ (set : SymbolSet) (f : Formula set),
      ((∃ value, f.evaluate v = .ok value) ↔ ∀ s ∈ set.symbolsIn f.text, (v s).isSome = true) ∧
      ∀ cause, f.evaluate v = .error cause ↔
        ∃ s, (set.symbolsIn f.text).find? (fun s => (v s).isNone) = some s ∧
          cause = .unassigned s.name := by
  refine ⟨?_, ?_, fun tokens t => isParenthesis_of_mem_ofTokens, ?_⟩
  · intro hv cause
    exact evaluateFrom_eq_error_iff (fun s hs => hv s (Token.mem_filterMap_symbol?_iff.2 hs)) [] 0 cause
  · intro hv
    obtain ⟨front, s, behind, htokens, hfront, hs⟩ := exists_first_unassigned hv
    obtain ⟨hsame, hunassigned⟩ := evaluate_of_first_unassigned htokens hfront hs
    refine ⟨front, s, behind, htokens, hfront, hs, fun o i => hsame _, fun t i => hsame _, ?_⟩
    intro hplain hnone
    apply hunassigned
    intro cause hcheck hbefore
    obtain ⟨o, i, rfl, hi⟩ := exists_missingOperand_of_isBefore hplain hcheck hbefore
    exact hnone ⟨o, i, hcheck, hi⟩
  · intro set f
    exact ⟨f.exists_evaluate_eq_ok_iff v, f.evaluate_eq_error_iff v⟩

/-- Without a value for its symbol a program does not get as far as the operator that lacks an operand, and
    with one it does. -/
theorem check_predicts_evaluate_of_half_conjunction :
    let p : Postfix := ⟨[.symbol ⟨'p', 0⟩, .operator (.binary .and)]⟩
    p.check = .error (.missingOperand (.binary .and) 1) ∧
      p.evaluate (.ofPairs [('p', true)]) = .error (.missingOperand (.binary .and) 1) ∧
      p.evaluate (.ofPairs []) = .error (.unassigned 'p') := by
  intro p
  have hcheck : p.check = .error (.missingOperand (.binary .and) 1) := rfl
  refine ⟨hcheck, ?_, ?_⟩
  · have hcovers : ∀ s ∈ p.symbols, (Valuation.ofPairs [('p', true)] s).isSome = true := by
      intro s hs
      cases List.mem_singleton.1 hs
      rfl
    exact ((check_predicts_evaluate p _).1 hcovers _).2 hcheck
  · have hsilent : ¬ ∀ s ∈ p.symbols, (Valuation.ofPairs [] s).isSome = true := by
      intro h
      exact absurd (h ⟨'p', 0⟩ (List.mem_singleton_self _)) (by decide)
    obtain ⟨front, s, behind, htokens, -, -, -, -, hunassigned⟩ :=
      (check_predicts_evaluate p (.ofPairs [])).2.1 hsilent
    have hplain : ∀ t ∈ p.tokens, t.isParenthesis = false := by decide
    cases front with
    | nil =>
        cases htokens
        refine hunassigned hplain ?_
        rintro ⟨o, i, -, hi⟩
        exact absurd hi (Nat.not_lt_zero i)
    | cons t front =>
        -- no other token is a symbol
        obtain ⟨-, hrest⟩ := List.cons.inj htokens
        rcases front with _ | ⟨t', _ | ⟨_, _⟩⟩ <;> simp at hrest

end Postfix

end TruthTables
