import TruthTables.Malformed
import TruthTables.Valuation

set_option autoImplicit false

/-! # Postfix programs

A formula with every operator behind its operands is a program for a stack of truth values: a symbol
pushes its value, an operator replaces its operands by the result.

`check` runs the program on the height of the stack alone, `evaluate` on the values. Both report the
first fault from the left, with the position of its token. -/

namespace TruthTables

/-- A sequence of tokens, to be run from left to right. -/
structure Postfix where
  tokens : List Token
  deriving DecidableEq, Repr

namespace Postfix

/-- The tokens as text, with a space between two. -/
def text (p : Postfix) : String :=
  String.ofList ((p.tokens.map Token.char).intersperse ' ')

/-- The symbols in the order of their occurrence. -/
def symbols (p : Postfix) : List Symbol :=
  p.tokens.filterMap Token.symbol?

/-! ## Checking -/

/-- Run the rest of a program from `position` on with `height` values on the stack. -/
def checkFrom : Nat → Nat → List Token → Except Malformed Unit
  | height, _, [] => if height = 1 then .ok () else .error (.leftover height)
  | height, position, .symbol _ :: rest => checkFrom (height + 1) (position + 1) rest
  | height, position, .operator o :: rest =>
    if height < o.arity then .error (.missingOperand o position)
    else checkFrom (height - (o.arity - 1)) (position + 1) rest
  | _, position, .opening :: _ => .error (.unexpectedToken .opening position)
  | _, position, .closing :: _ => .error (.unexpectedToken .closing position)

/-- Whether a program leaves one value wherever its symbols have values. -/
def check (p : Postfix) : Except Malformed Unit :=
  checkFrom 0 0 p.tokens

/-! ## Evaluation -/

/-- Apply an operator to the topmost values of a stack, the second operand on top. `none` if there
    are too few. -/
def applyTo : Operator → List Bool → Option (List Bool)
  | .not, x :: stack => some ((!x) :: stack)
  | .binary c, b :: a :: stack => some (c.apply a b :: stack)
  | _, _ => none

/-- Run the rest of a program from `position` on upon a stack of values. -/
def evaluateFrom (v : Valuation) : List Bool → Nat → List Token → Except Malformed Bool
  | [result], _, [] => .ok result
  | stack, _, [] => .error (.leftover stack.length)
  | stack, position, .symbol s :: rest =>
    match v s with
    | none => .error (.unassigned s.name)
    | some value => evaluateFrom v (value :: stack) (position + 1) rest
  | stack, position, .operator o :: rest =>
    match applyTo o stack with
    | none => .error (.missingOperand o position)
    | some stack' => evaluateFrom v stack' (position + 1) rest
  | _, position, .opening :: _ => .error (.unexpectedToken .opening position)
  | _, position, .closing :: _ => .error (.unexpectedToken .closing position)

/-- The value of a program under a valuation. -/
def evaluate (p : Postfix) (v : Valuation) : Except Malformed Bool :=
  evaluateFrom v [] 0 p.tokens

/-- An operator can be applied exactly when there are as many values as it takes. -/
theorem applyTo_eq_none_iff (o : Operator) (stack : List Bool) :
    applyTo o stack = none ↔ stack.length < o.arity := by
  cases o with
  | not => cases stack <;> simp [applyTo, Operator.arity, Operator.isUnary]
  | binary c =>
    rcases stack with _ | ⟨_, _ | ⟨_, _⟩⟩ <;> simp [applyTo, Operator.arity, Operator.isUnary]

/-- An applied operator leaves one value in the place of its operands. -/
theorem length_applyTo {o : Operator} {stack stack' : List Bool} (h : applyTo o stack = some stack') :
    stack'.length = stack.length - (o.arity - 1) := by
  cases o with
  | not =>
    rcases stack with _ | ⟨_, _⟩ <;> simp [applyTo] at h
    simp [← h, Operator.arity, Operator.isUnary]
  | binary c =>
    rcases stack with _ | ⟨_, _ | ⟨_, _⟩⟩ <;> simp [applyTo] at h
    simp [← h, Operator.arity, Operator.isUnary]

end Postfix

end TruthTables
