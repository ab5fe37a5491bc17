import TruthTables.Postfix.Conversion
import TruthTables.Rejection

set_option autoImplicit false

/-! # Formulas

A formula is a text over a symbol set together with its postfix program, which has passed
`Postfix.check`. Texts that are none are rejected with a reason. A `Formula` carries the proofs of
both facts, so whoever evaluates it knows that nothing but a symbol without a value can stand in the
way. -/

namespace TruthTables

/-- A text over a symbol set and its checked postfix program. -/
structure Formula (symbols : SymbolSet) where
  text : String
  program : Postfix
  converted : Postfix.ofText symbols text = .ok program
  checked : program.check = .ok ()

namespace Formula

variable {symbols : SymbolSet}

/-- Convert a text and check the program. Of the text itself only the characters are judged. -/
def ofJudgedText (symbols : SymbolSet) (text : String) : Except Rejection (Formula symbols) :=
  match converted : Postfix.ofText symbols text with
  | .error fault => .error (.text text fault)
  | .ok program =>
    match checked : program.check with
    | .error cause => .error (.malformed text cause)
    | .ok () => .ok { text, program, converted, checked }

/-- Judge a text, convert it and check the program. -/
def ofText (symbols : SymbolSet) (text : String) : Except Rejection (Formula symbols) :=
  match symbols.checkText text with
  | .error fault => .error (.text text fault)
  | .ok () => ofJudgedText symbols text

/-- Convert texts in order, up to the first that is rejected. -/
def ofJudgedTexts (symbols : SymbolSet) : List String → Except Rejection (List (Formula symbols))
  | [] => .ok []
  | text :: rest =>
    match ofJudgedText symbols text with
    | .error rejection => .error rejection
    | .ok f => (ofJudgedTexts symbols rest).map (f :: ·)

/-- The value of a formula under a valuation. -/
def evaluate (f : Formula symbols) (v : Valuation) : Except Malformed Bool :=
  f.program.evaluate v

/-- The value of a formula under a valuation, where a cause names the formula. -/
def evaluateNamed (f : Formula symbols) (v : Valuation) : Except Rejection Bool :=
  (f.evaluate v).mapError (.malformed f.text)

/-- The values of several formulas under one valuation, up to the first cause. -/
def evaluateAll (v : Valuation) :
    (fs : List (Formula symbols)) → Except Rejection { row : List Bool // row.length = fs.length }
  | [] => .ok ⟨[], rfl⟩
  | f :: fs =>
    match f.evaluateNamed v with
    | .error rejection => .error rejection
    | .ok value =>
      match evaluateAll v fs with
      | .error rejection => .error rejection
      | .ok ⟨row, h⟩ => .ok ⟨value :: row, congrArg (· + 1) h⟩

end Formula

end TruthTables
