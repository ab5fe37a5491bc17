import TruthTables.Formula.Fault
import TruthTables.Malformed
import TruthTables.SymbolSet

set_option autoImplicit false

/-! # Rejections

Whatever is built from symbols and formula texts is refused for one of three kinds of reasons: the
symbol list, a text, or the arrangement of a text's tokens. The last kind wraps the cause together with
the text; the cause keeps its own wording. -/

namespace TruthTables

/-- Why symbols or formulas are rejected. -/
inductive Rejection
  /-- The symbol list is at fault. -/
  | symbols (fault : SymbolFault)
  /-- A formula text is at fault. -/
  | text (formula : String) (fault : FormulaFault)
  /-- The tokens of a formula do not describe one truth value. -/
  | malformed (formula : String) (cause : Malformed)
  deriving DecidableEq, Repr

namespace Rejection

/-- The wording of a rejection. -/
def message : Rejection → String
  | .symbols fault => fault.message
  | .text formula fault => fault.message formula
  | .malformed formula _ => "malformed formula " ++ formula

/-- The wording of what lies behind a rejection, where there is something. -/
def cause? : Rejection → Option String
  | .malformed _ cause => some cause.message
  | .symbols _ | .text _ _ => none

end Rejection

end TruthTables
