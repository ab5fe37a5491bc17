import TruthTables.Malformed
import TruthTables.Valuation

set_option autoImplicit false

/-! # Expression trees

The structure of a formula: symbols, negations, and statements joined by a connective. Parentheses
and blanks are gone. A tree can be evaluated, listed in post-order, and printed with a pair of
parentheses around each joined statement. -/

namespace TruthTables

/-- An expression tree. -/
inductive Expr
  | var (s : Symbol)
  | not (e : Expr)
  | binary (c : Connective) (l r : Expr)
  deriving DecidableEq, Repr

namespace Expr

/-- The value of a tree under a valuation. Both sides of a connective are evaluated, the left one
    first, so a symbol without a value is reported wherever it stands. -/
def eval (v : Valuation) : Expr → Except Malformed Bool
  | .var s =>
    match v s with
    | none => .error (.unassigned s.name)
    | some value => .ok value
  | .not e =>
    match e.eval v with
    | .error cause => .error cause
    | .ok a => .ok !a
  | .binary c l r =>
    match l.eval v with
    | .error cause => .error cause
    | .ok a =>
      match r.eval v with
      | .error cause => .error cause
      | .ok b => .ok (c.apply a b)

/-- The tokens of a tree in post-order: each operator behind its operands. -/
def postorder : Expr → List Token
  | .var s => [.symbol s]
  | .not e => e.postorder ++ [.operator .not]
  | .binary c l r => l.postorder ++ r.postorder ++ [.operator (.binary c)]

/-- The printed form of a tree. -/
def print : Expr → List Char
  | .var s => [s.name]
  | .not e => '~' :: e.print
  | .binary c l r => '(' :: l.print ++ c.char :: r.print ++ [')']

/-- The printed form of a tree as a string. -/
def text (e : Expr) : String :=
  String.ofList e.print

/-- Equality of trees in which symbols are told apart by position alone. -/
def coincides : Expr → Expr → Bool
  | .var a, .var b => a.coincides b
  | .not a, .not b => a.coincides b
  | .binary c l r, .binary c' l' r' => c == c' && l.coincides l' && r.coincides r'
  | _, _ => false

/-- The subtrees of a tree in post-order, the tree itself last. -/
def subtrees : Expr → List Expr
  | .var s => [.var s]
  | .not e => e.subtrees ++ [.not e]
  | .binary c l r => l.subtrees ++ r.subtrees ++ [.binary c l r]

theorem coincides_refl (e : Expr) : e.coincides e = true := by
  induction e with
  | var s => exact Symbol.coincides_of_eq rfl
  | not e ih => exact ih
  | binary c l r ihl ihr => simp [coincides, ihl, ihr]

theorem self_mem_subtrees (e : Expr) : e ∈ e.subtrees := by
  cases e <;> simp [subtrees]

end Expr

end TruthTables
