set_option autoImplicit false

/-! # Connectives and operators

The logical vocabulary. A *connective* joins two statements; an *operator* is a connective or the
negation sign. The two are separate types, so that a place that takes a connective (the inner node of
an expression tree) cannot hold a negation.

Operators are ranked by how tightly they bind: `>` loosest, then `|`, `^`, and `~` tightest. All
precedence and associativity of the library comes from `Operator.yieldsTo`, which compares ranks. -/

namespace TruthTables

/-- The ways to join two statements. -/
inductive Connective
  | implies
  | or
  | and
  deriving DecidableEq, Repr

/-- A connective, or negation. -/
inductive Operator
  | binary (connective : Connective)
  | not
  deriving DecidableEq, Repr

/-! ## Connectives -/

namespace Connective

/-- The sign of a connective. -/
def char : Connective → Char
  | .implies => '>'
  | .or => '|'
  | .and => '^'

/-- How tightly a connective binds. -/
def rank : Connective → Nat
  | .implies => 0
  | .or => 1
  | .and => 2

/-- The truth value of two joined statements. -/
def apply : Connective → Bool → Bool → Bool
  | .implies, a, b => !a || b
  | .or, a, b => a || b
  | .and, a, b => a && b

theorem apply_implies (a b : Bool) : implies.apply a b = true ↔ (a = true → b = true) := by
  cases a <;> cases b <;> decide

theorem apply_or (a b : Bool) : or.apply a b = true ↔ a = true ∨ b = true := by
  cases a <;> cases b <;> decide

theorem apply_and (a b : Bool) : and.apply a b = true ↔ a = true ∧ b = true := by
  cases a <;> cases b <;> decide

/-- The connective that binds next tighter, if there is one. -/
def tighter : Connective → Option Connective
  | .implies => some .or
  | .or => some .and
  | .and => none

theorem rank_tighter {c d : Connective} (h : c.tighter = some d) : d.rank = c.rank + 1 := by
  cases c <;> cases h <;> rfl

theorem rank_inj {c d : Connective} (h : c.rank = d.rank) : c = d := by
  cases c <;> cases d <;> simp_all [rank]

theorem char_inj {c d : Connective} (h : c.char = d.char) : c = d := by
  cases c <;> cases d <;> simp_all [char]

end Connective

/-! ## Operators -/

namespace Operator

/-- All operators, loosest first. -/
def all : List Operator :=
  [.binary .implies, .binary .or, .binary .and, .not]

theorem mem_all (o : Operator) : o ∈ all := by
  cases o with
  | binary c => cases c <;> decide
  | not => decide

/-- The sign of an operator. -/
def char : Operator → Char
  | .binary c => c.char
  | .not => '~'

/-- The operator with the given sign. -/
def ofChar? (c : Char) : Option Operator :=
  all.find? fun o => o.char = c

theorem ofChar?_char (o : Operator) : ofChar? o.char = some o := by
  cases o with
  | binary c => cases c <;> decide
  | not => decide

theorem char_of_ofChar? {c : Char} {o : Operator} (h : ofChar? c = some o) : o.char = c := by
  simpa using List.find?_some h

/-- Whether an operator takes a single operand. -/
def isUnary : Operator → Bool
  | .binary _ => false
  | .not => true

/-- The number of operands. -/
def arity (o : Operator) : Nat :=
  if o.isUnary then 1 else 2

/-- How tightly an operator binds. -/
def rank : Operator → Nat
  | .binary c => c.rank
  | .not => 3

/-- Whether an operator that waits for its right operand is complete once `incoming` is met: it
    binds at least as tightly, which makes equal connectives group to the left. A negation sign
    completes nothing, because no operand stands on its left. -/
def yieldsTo (waiting incoming : Operator) : Bool :=
  !incoming.isUnary && decide (incoming.rank ≤ waiting.rank)

/-- The truth value of an applied operator. Negation ignores its second argument. -/
def apply : Operator → Bool → Bool → Bool
  | .binary c, a, b => c.apply a b
  | .not, a, _ => !a

/-- Operators in the order of their ranks. -/
def order (a b : Operator) : Ordering :=
  compare a.rank b.rank

theorem not_yieldsTo_not (o : Operator) : o.yieldsTo .not = false := rfl

end Operator

end TruthTables
