import TruthTables.Token

set_option autoImplicit false

/-! # Malformed expressions

Why a sequence of tokens does not describe exactly one truth value. Positions count tokens from 0:
of the postfix program for a missing operand, of the formula for an unexpected token. -/

namespace TruthTables

/-- How deeply signs of negation and parentheses may be nested in a formula that is read into a
    tree. -/
def nestingLimit : Nat := 256

/-- What can be wrong with a sequence of tokens. -/
inductive Malformed
  /-- An operator finds too few operands before it. -/
  | missingOperand (operator : Operator) (position : Nat)
  /-- The end is reached with another number of values than one. -/
  | leftover (count : Nat)
  /-- A symbol has no value. -/
  | unassigned (name : Char)
  /-- No formula goes on with this token. -/
  | unexpectedToken (token : Token) (position : Nat)
  /-- The tokens end where a formula cannot end. -/
  | unexpectedEnd
  /-- Nesting exceeds `nestingLimit`. -/
  | tooDeep
  deriving DecidableEq, Repr

/-- The wording of a cause. -/
def Malformed.message : Malformed → String
  | .missingOperand operator position =>
    "operator '" ++ operator.char.toString ++ "' at postfix position " ++ toString position
      ++ " is missing an operand"
  | .leftover count => "expression leaves " ++ toString count ++ " values instead of exactly one"
  | .unassigned name => "symbol '" ++ name.toString ++ "' has no value in the assignment"
  | .unexpectedToken token position =>
    "unexpected token '" ++ token.char.toString ++ "' at " ++ toString position
  | .unexpectedEnd => "unexpected end of formula"
  | .tooDeep => "formula nests deeper than " ++ toString nestingLimit ++ " levels"

end TruthTables
