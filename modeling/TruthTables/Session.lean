import TruthTables.Formula
import TruthTables.Table

set_option autoImplicit false

/-! # Sessions

A symbol set with formulas over it. A session is built in one go and says why it cannot be: symbols are
judged first, then all texts in order, then the postfix programs in order, so a fault in a later text
comes before a malformed program in an earlier one. -/

namespace TruthTables

/-- A symbol set and formulas over it. -/
structure Session where
  symbols : SymbolSet
  formulas : List (Formula symbols)

namespace Session

/-- Read a symbol list and judge formula texts over it. -/
def judge (symbols formulas : List String) : Except Rejection SymbolSet :=
  match SymbolSet.ofList symbols with
  | .error fault => .error (.symbols fault)
  | .ok set =>
    match set.checkTexts formulas with
    | .error (formula, fault) => .error (.text formula fault)
    | .ok () => .ok set

/-- Build a session. -/
def ofTexts (symbols formulas : List String) : Except Rejection Session :=
  match judge symbols formulas with
  | .error rejection => .error rejection
  | .ok set =>
    match Formula.ofJudgedTexts set formulas with
    | .error rejection => .error rejection
    | .ok formulas => .ok { symbols := set, formulas }

/-- The texts of the formulas. -/
def texts (s : Session) : List String :=
  s.formulas.map Formula.text

/-- All assignments over the symbols. -/
def assignments (s : Session) : Enumeration :=
  .all s.symbols

/-- The assignment of a given number. -/
def assignment? (s : Session) (number : Nat) : Option Assignment :=
  Assignment.ofNumber? s.symbols number

/-- The numbers and values of the assignments in front of the enumeration, at most `limit` of them. -/
def truthMap (s : Session) (limit : Nat) : List (Nat × List (Char × Bool)) :=
  (s.assignments.front limit).map fun a => (a.number, a.toMap)

/-- The value of one of the session's formulas. -/
def evaluateFormula? (s : Session) (formula : Nat) (v : Valuation) :
    Option (Except Malformed Bool) :=
  s.formulas[formula]?.map fun f => f.evaluate v

/-- Judge, convert and evaluate a text that does not belong to the session. -/
def evaluate (s : Session) (text : String) (v : Valuation) : Except Rejection Bool :=
  match Formula.ofText s.symbols text with
  | .error rejection => .error rejection
  | .ok f => f.evaluateNamed v

/-! ## Truth tables -/

/-- The row of an assignment. -/
def row (s : Session) (a : Assignment) : Except Rejection (Row s.texts.length) :=
  match Formula.evaluateAll a.toValuation s.formulas with
  | .error rejection => .error rejection
  | .ok ⟨values, h⟩ =>
    .ok { assignment := a, values, length_values := by rw [h, texts, List.length_map] }

/-- The truth table of a session. It has `2 ^ n` rows for `n` symbols, of which there may be 63; memory is
    taken to be unlimited. -/
def table (s : Session) : Except Rejection Table := do
  let rows ← s.assignments.toList.mapM s.row
  return .ofRows s.symbols s.texts rows

/-- The truth table of a session, with each row evaluated as a task of its own. -/
def tableInParallel (s : Session) : Except Rejection Table := do
  let tasks := s.assignments.toList.map fun a => Task.spawn fun _ => s.row a
  let rows ← tasks.mapM Task.get
  return .ofRows s.symbols s.texts rows

end Session

end TruthTables
