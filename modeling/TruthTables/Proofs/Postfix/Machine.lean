import TruthTables.Expr
import TruthTables.Postfix

set_option autoImplicit false

/-! # Postfix programs and trees

A program that leaves one value is the post-order listing of an expression tree, and of no other one. To
find the tree, the program is run on a stack of trees: a symbol pushes a leaf, an operator joins the
topmost trees. `treeFrom` is that run. It succeeds exactly when the run on heights (`Postfix.check`)
does, and `evaluateFrom_postorder` says that the run on values computes the value of the tree, the first
symbol without a value included. All statements are about a run upon an arbitrary stack with an
arbitrary rest of the program, because a tree's listing is run in the middle of a larger one. -/

namespace TruthTables

namespace Postfix

/-! ## Running a program on trees -/

/-- Join the topmost trees of a stack by an operator, the second operand on top. -/
def join : Operator → List Expr → Option (List Expr)
  | .not, e :: stack => some (.not e :: stack)
  | .binary c, r :: l :: stack => some (.binary c l r :: stack)
  | _, _ => none

/-- Run the rest of a program upon a stack of trees. -/
def treeFrom : List Expr → List Token → Option Expr
  | stack, [] =>
    match stack with
    | [e] => some e
    | _ => none
  | stack, .symbol s :: rest => treeFrom (.var s :: stack) rest
  | stack, .operator o :: rest =>
    match join o stack with
    | none => none
    | some stack' => treeFrom stack' rest
  | _, .opening :: _ => none
  | _, .closing :: _ => none

/-- The listings of the trees on a stack, the lowest one first. -/
def listing (stack : List Expr) : List Token :=
  stack.reverse.flatMap Expr.postorder

@[simp]
theorem listing_cons (e : Expr) (stack : List Expr) :
    listing (e :: stack) = listing stack ++ e.postorder := by
  simp [listing]

theorem join_eq_none_iff (o : Operator) (stack : List Expr) :
    join o stack = none ↔ stack.length < o.arity := by
  cases o with
  | not => cases stack <;> simp [join, Operator.arity, Operator.isUnary]
  | binary c =>
      rcases stack with _ | ⟨_, _ | ⟨_, _⟩⟩ <;> simp [join, Operator.arity, Operator.isUnary]

theorem length_join {o : Operator} {stack stack' : List Expr} (h : join o stack = some stack') :
    stack'.length = stack.length - (o.arity - 1) := by
  cases o with
  | not =>
      rcases stack with _ | ⟨_, _⟩ <;> simp [join] at h
      simp [← h, Operator.arity, Operator.isUnary]
  | binary c =>
      rcases stack with _ | ⟨_, _ | ⟨_, _⟩⟩ <;> simp [join] at h
      simp [← h, Operator.arity, Operator.isUnary]

theorem listing_join {o : Operator} {stack stack' : List Expr} (h : join o stack = some stack') :
    listing stack' = listing stack ++ [.operator o] := by
  cases o with
  | not =>
      rcases stack with _ | ⟨e, stack⟩ <;> simp [join] at h
      simp [← h, Expr.postorder]
  | binary c =>
      rcases stack with _ | ⟨r, _ | ⟨l, stack⟩⟩ <;> simp [join] at h
      simp [← h, Expr.postorder]

/-- A tree's listing pushes the tree. -/
theorem treeFrom_postorder (e : Expr) (stack : List Expr) (rest : List Token) :
    treeFrom stack (e.postorder ++ rest) = treeFrom (e :: stack) rest := by
  induction e generalizing stack rest with
  | var s => rfl
  | not e ih =>
      rw [Expr.postorder, List.append_assoc, ih]
      rfl
  | binary c l r ihl ihr =>
      rw [Expr.postorder, List.append_assoc, List.append_assoc, ihl, ihr]
      rfl

/-- A run on trees lists the tree it returns. -/
theorem listing_append_of_treeFrom {e : Expr} {tokens : List Token} {stack : List Expr}
    (h : treeFrom stack tokens = some e) : listing stack ++ tokens = e.postorder := by
  induction tokens generalizing stack with
  | nil =>
      rcases stack with _ | ⟨e', _ | ⟨_, _⟩⟩ <;> simp [treeFrom] at h
      simp [h, listing]
  | cons token rest ih =>
      cases token with
      | symbol s =>
          rw [← ih h, listing_cons, List.append_assoc]
          rfl
      | operator o =>
          rw [treeFrom] at h
          split at h
          · exact absurd h (by simp)
          · next stack' hjoin =>
              rw [← ih h, listing_join hjoin, List.append_assoc]
              rfl
      | opening => exact absurd h (by simp [treeFrom])
      | closing => exact absurd h (by simp [treeFrom])

/-! ## Checking -/

/-- The run on heights succeeds exactly when the run on trees does. -/
theorem checkFrom_eq_ok_iff (tokens : List Token) (stack : List Expr) (position : Nat) :
    checkFrom stack.length position tokens = .ok () ↔ ∃ e, treeFrom stack tokens = some e := by
  induction tokens generalizing stack position with
  | nil => rcases stack with _ | ⟨e, _ | ⟨_, _⟩⟩ <;> simp [checkFrom, treeFrom]
  | cons token rest ih =>
      -- both runs take the same branch, because an operator needs as many trees as values
      cases token with
      | symbol s =>
          rw [checkFrom]
          exact ih (.var s :: stack) (position + 1)
      | operator o =>
          rw [checkFrom, treeFrom]
          cases hjoin : join o stack with
          | none =>
              rw [if_pos ((join_eq_none_iff o stack).1 hjoin)]
              simp
          | some stack' =>
              have hheight : ¬ stack.length < o.arity := by
                rw [← join_eq_none_iff, hjoin]
                simp
              rw [if_neg hheight, ← length_join hjoin]
              exact ih stack' (position + 1)
      | opening => simp [checkFrom, treeFrom]
      | closing => simp [checkFrom, treeFrom]

theorem join_ne_nil {o : Operator} {stack stack' : List Expr} (h : join o stack = some stack') :
    stack' ≠ [] := by
  rintro rfl
  have hlisting := listing_join h
  exact absurd hlisting.symm (by simp [listing])

/-- A negation sign may come wherever a tree is on the stack. -/
theorem exists_treeFrom_negation {xs ys : List Token} {stack : List Expr} {e : Expr}
    (h : treeFrom stack (xs ++ ys) = some e) (hstack : stack ≠ [] ∨ xs ≠ []) :
    ∃ e', treeFrom stack (xs ++ .operator .not :: ys) = some e' := by
  induction xs generalizing stack with
  | nil =>
      rcases stack with _ | ⟨top, stack⟩
      · exact absurd hstack (by simp)
      · -- nothing but the top tree changes, and success depends on the height alone
        have hcheck := (checkFrom_eq_ok_iff ys (top :: stack) 0).2 ⟨e, h⟩
        exact (checkFrom_eq_ok_iff ys (.not top :: stack) 0).1 hcheck
  | cons token rest ih =>
      cases token with
      | symbol s => exact ih h (Or.inl (List.cons_ne_nil _ _))
      | operator o =>
          rw [List.cons_append, treeFrom] at h ⊢
          cases hjoin : join o stack with
          | none =>
              rw [hjoin] at h
              exact absurd h (by simp)
          | some stack' =>
              rw [hjoin] at h
              exact ih h (Or.inl (join_ne_nil hjoin))
      | opening => exact absurd h (by simp [treeFrom])
      | closing => exact absurd h (by simp [treeFrom])

/-- The programs that leave one value are the post-order listings of trees. -/
theorem check_eq_ok_iff (p : Postfix) : p.check = .ok () ↔ ∃ e : Expr, p.tokens = e.postorder := by
  rw [check]
  constructor
  · intro h
    obtain ⟨e, he⟩ := (checkFrom_eq_ok_iff p.tokens [] 0).1 h
    exact ⟨e, listing_append_of_treeFrom he⟩
  · rintro ⟨e, he⟩
    refine (checkFrom_eq_ok_iff p.tokens [] 0).2 ⟨e, ?_⟩
    rw [he, ← List.append_nil e.postorder, treeFrom_postorder]
    rfl

theorem check_insert_negation {xs ys : List Token} (h : check ⟨xs ++ ys⟩ = .ok ()) (hxs : xs ≠ []) :
    check ⟨xs ++ .operator .not :: ys⟩ = .ok () := by
  obtain ⟨e, he⟩ := (checkFrom_eq_ok_iff (xs ++ ys) [] 0).1 h
  exact (checkFrom_eq_ok_iff _ [] 0).2 (exists_treeFrom_negation he (Or.inr hxs))

/-- Operators alone have nothing to work on. -/
theorem check_operators (ops : List Operator) : check ⟨ops.map .operator⟩ ≠ .ok () := by
  cases ops with
  | nil => simp [check, checkFrom]
  | cons o rest => cases o <;> simp [check, checkFrom, Operator.arity, Operator.isUnary]

end Postfix

/-- Different trees have different listings. -/
theorem Expr.postorder_inj {e e' : Expr} (h : e.postorder = e'.postorder) : e = e' := by
  have hrun : ∀ e : Expr, Postfix.treeFrom [] e.postorder = some e := by
    intro e
    rw [← List.append_nil e.postorder, Postfix.treeFrom_postorder]
    rfl
  exact Option.some.inj ((hrun e).symm.trans (h ▸ hrun e'))

/-! ## Evaluation -/

/-- The symbols of a tree from left to right, each as often as it occurs. -/
def Expr.symbols : Expr → List Symbol
  | .var s => [s]
  | .not e => e.symbols
  | .binary _ l r => l.symbols ++ r.symbols

/-- The value of a tree depends on nothing but the first symbol without a value, if there is one. -/
theorem Expr.eval_eq_error_iff (e : Expr) (v : Valuation) (cause : Malformed) :
    e.eval v = .error cause ↔
      ∃ s, e.symbols.find? (fun s => (v s).isNone) = some s ∧ cause = .unassigned s.name := by
  induction e generalizing cause with
  | var s =>
      cases hs : v s with
      | none => simp [eval, symbols, hs, eq_comm]
      | some b => simp [eval, symbols, hs]
  | not e ih =>
      rw [symbols, ← ih, eval]
      cases e.eval v <;> simp
  | binary c l r ihl ihr =>
      rw [symbols, List.find?_append, eval]
      cases hl : l.eval v with
      | error cause' =>
          obtain ⟨s, hs, rfl⟩ := (ihl cause').1 hl
          simp [hs, eq_comm]
      | ok a =>
          have hnone : l.symbols.find? (fun s => (v s).isNone) = none := by
            cases hfind : l.symbols.find? (fun s => (v s).isNone) with
            | none => rfl
            | some s => exact absurd ((ihl _).2 ⟨s, hfind, rfl⟩) (by simp [hl])
          rw [hnone, Option.none_or, ← ihr]
          cases r.eval v <;> simp

/-- A tree's listing pushes the value of the tree, or stops with the cause why it has none. -/
theorem Postfix.evaluateFrom_postorder (e : Expr) (v : Valuation) (stack : List Bool)
    (position : Nat) (rest : List Token) :
    evaluateFrom v stack position (e.postorder ++ rest) =
      match e.eval v with
      | .error cause => .error cause
      | .ok value =>
        evaluateFrom v (value :: stack) (position + e.postorder.length) rest := by
  induction e generalizing stack position rest with
  | var s =>
      show evaluateFrom v stack position (.symbol s :: rest) = _
      rw [evaluateFrom, Expr.eval]
      cases v s <;> rfl
  | not e ih =>
      rw [Expr.postorder, List.append_assoc, ih, Expr.eval]
      cases e.eval v with
      | error cause => rfl
      | ok value =>
          show evaluateFrom v (value :: stack) _ (.operator .not :: rest) = _
          rw [evaluateFrom, List.length_append]
          rfl
  | binary c l r ihl ihr =>
      rw [Expr.postorder, List.append_assoc, List.append_assoc, ihl, Expr.eval]
      cases l.eval v with
      | error cause => rfl
      | ok a =>
          simp only
          rw [ihr]
          cases r.eval v with
          | error cause => rfl
          | ok b =>
              simp only [List.length_append, ← Nat.add_assoc]
              rfl

/-- The value of a tree's listing is the value of the tree. -/
theorem Postfix.evaluate_postorder (e : Expr) (v : Valuation) :
    evaluate ⟨e.postorder⟩ v = e.eval v := by
  have h := evaluateFrom_postorder e v [] 0 []
  rw [List.append_nil] at h
  rw [evaluate, h]
  cases e.eval v <;> rfl

/-! ## Reading a program back -/

/-- The check accepts the post-order listings of trees and nothing else. A listing is readable in one way
    only, the names and positions of the symbols included, and running it under a valuation, total or
    partial, gives the value of the tree or the cause why the tree has none. -/
theorem Postfix.check_reads_listings (p : Postfix) :
    (p.check = .ok () ↔ ∃ e : Expr, p.tokens = e.postorder) ∧
    (∀ e e' : Expr, p.tokens = e.postorder → p.tokens = e'.postorder → e = e') ∧
    ∀ e : Expr, p.tokens = e.postorder → ∀ v, p.evaluate v = e.eval v := by
  refine ⟨p.check_eq_ok_iff, ?_, ?_⟩
  · intro e e' he he'
    exact Expr.postorder_inj (he.symm.trans he')
  · intro e he v
    obtain ⟨tokens⟩ := p
    cases he
    exact evaluate_postorder e v

/-- A negation sign that is applied to a joined statement, and one to a symbol. -/
theorem Postfix.check_reads_negated_listing :
    let p : Postfix := ⟨[.symbol ⟨'p', 0⟩, .symbol ⟨'q', 1⟩, .operator .not, .operator (.binary .and),
      .operator .not]⟩
    p.check = .ok () ∧
      p.evaluate (.ofPairs [('p', true), ('q', true)]) = .ok true ∧
      p.evaluate (.ofPairs [('p', true)]) = .error (.unassigned 'q') := by
  intro p
  let e : Expr := .not (.binary .and (.var ⟨'p', 0⟩) (.not (.var ⟨'q', 1⟩)))
  have hlisting : p.tokens = e.postorder := rfl
  obtain ⟨haccepts, -, hvalue⟩ := p.check_reads_listings
  refine ⟨haccepts.2 ⟨e, hlisting⟩, ?_, ?_⟩
  · rw [hvalue e hlisting]
    rfl
  · rw [hvalue e hlisting]
    rfl

end TruthTables
