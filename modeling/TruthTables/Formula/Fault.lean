import TruthTables.Text.Quoted

set_option autoImplicit false

/-! # Faults of a formula text

What can be wrong with a text before it is taken apart into tokens. Positions count the characters of
the text from 0, blanks included. A fault does not repeat the text; the wording takes it as an
argument. -/

namespace TruthTables

/-- How the parentheses of a text fail to balance. -/
inductive Imbalance
  /-- The `)` at this position closes more groups than were opened. -/
  | frontLoaded (position : Nat)
  /-- The text ends with this many groups open. -/
  | unclosed (groups : Nat)
  deriving DecidableEq, Repr

/-- What can be wrong with a formula text. -/
inductive FormulaFault
  /-- There is nothing but blanks. -/
  | empty
  /-- The first character that is no blank cannot begin a formula. -/
  | firstCharacter (character : Char)
  /-- A character is neither a blank, nor reserved, nor a declared symbol. -/
  | illegalCharacter (character : Char) (position : Nat)
  /-- The parentheses do not balance. -/
  | parentheses (imbalance : Imbalance)
  deriving DecidableEq, Repr

/-- The wording of a fault of the given text. -/
def FormulaFault.message (formula : String) : FormulaFault → String
  | .empty => "formula " ++ Text.quoted formula ++ " is empty"
  | .firstCharacter character =>
    "the formula " ++ formula ++ " has an invalid first character: " ++ character.toString
  | .illegalCharacter character position =>
    "the formula " ++ formula ++ " has an invalid character at " ++ toString position ++ ": "
      ++ character.toString
  | .parentheses (.frontLoaded position) =>
    "front loaded right parenthesis at " ++ toString position ++ " in formula: " ++ formula
  | .parentheses (.unclosed groups) =>
    "parenthesis mismatch in formula " ++ formula ++ ": " ++ toString groups
      ++ " group(s) left open"

end TruthTables
