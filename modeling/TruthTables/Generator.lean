import TruthTables.Draws
import TruthTables.Problem
import TruthTables.SymbolSet

set_option autoImplicit false

/-! # Generated problems

Random formulas over given symbols, and whole problem files of them. A formula is a symbol or is built
from smaller formulas by a negation sign or a connective; parentheses are set around half of the joined
ones, and the others are left to the binding strength of the operators. -/

namespace TruthTables

/-- What can be wrong with a request for a problem. -/
inductive GeneratorFault
  /-- A symbol has a meaning of its own in problem files. -/
  | fileCharacter (name : Char)
  /-- The symbols are no symbol set. -/
  | symbols (fault : SymbolFault)
  /-- A formula needs at least one symbol. -/
  | nothingToChoose
  deriving DecidableEq, Repr

/-- The wording of a fault. -/
def GeneratorFault.message : GeneratorFault → String
  | .fileCharacter name => "Symbol '" ++ name.toString ++ "' cannot be used in an input file"
  | .symbols fault => fault.message
  | .nothingToChoose => "Cannot choose from an empty symbol list"

namespace Generator

variable {σ : Type}

/-! ## Symbols -/

/-- Whether a character has a meaning in problem files. -/
def isFileCharacter (c : Char) : Bool :=
  c == '#' || c == ','

/-- Read the characters of a text as symbols. Blanks between them do not count. -/
def symbolsOf (text : String) : Except GeneratorFault (List Char) :=
  let names := text.toList.filter fun c => !Text.isBlank c
  match names.find? isFileCharacter with
  | some c => .error (.fileCharacter c)
  | none =>
    match SymbolSet.ofList (names.map Char.toString) with
    | .error fault => .error (.symbols fault)
    | .ok set => .ok set.names

/-! ## Formulas -/

/-- How likely a formula is a symbol although it may be deeper: 0.3, in units of `2 ^ -64`. -/
def symbolThreshold : Nat := 5534023222112865280

/-- How likely a compound formula is a negation: 0.2. -/
def negationThreshold : Nat := 3689348814741910528

/-- How likely a joined formula stands between parentheses: 0.5. -/
def groupThreshold : Nat := 9223372036854775808

/-- A statement joined by a connective, with a space on each side of its sign. -/
def joined (grouped : Bool) (c : Connective) (left right : List Char) : List Char :=
  let text := left ++ ' ' :: c.char :: ' ' :: right
  if grouped then '(' :: text ++ [')'] else text

/-- A random formula with at most `depth` nested steps of construction. -/
def formula (draws : Draws σ) (first : Char) (others : List Char) : Nat → StateM σ (List Char)
  | 0 => do
    let name ← draws.choose first others
    return [name]
  | depth + 1 => do
    if ← draws.chance symbolThreshold then
      let name ← draws.choose first others
      return [name]
    else if ← draws.chance negationThreshold then
      let inner ← formula draws first others depth
      return '~' :: inner
    else
      let c ← draws.choose .implies [.or, .and]
      let left ← formula draws first others depth
      let right ← formula draws first others depth
      let grouped ← draws.chance groupThreshold
      return joined grouped c left right

/-- Several random formulas, one after another. -/
def formulas (draws : Draws σ) (first : Char) (others : List Char) (depth : Nat) :
    Nat → StateM σ (List (List Char))
  | 0 => return []
  | count + 1 => do
    let head ← formula draws first others depth
    let rest ← formulas draws first others depth count
    return head :: rest

/-- A random formula over symbols that need not be a symbol set, if there are any. -/
def formulaOver (draws : Draws σ) (symbols : List Char) (depth : Nat) (s : σ) :
    Except GeneratorFault (List Char × σ) :=
  match symbols with
  | [] => .error .nothingToChoose
  | first :: others => .ok (formula draws first others depth s)

/-- A random problem with `count` formulas. Only a formula needs symbols. -/
def problemOver (draws : Draws σ) (symbols : List Char) (count depth : Nat) (s : σ) :
    Except GeneratorFault (Problem × σ) :=
  let problem (formulas : List (List Char)) : Problem :=
    { symbols := symbols.map Char.toString, formulas := formulas.map String.ofList }
  match symbols with
  | [] => if count = 0 then .ok (problem [], s) else .error .nothingToChoose
  | first :: others =>
    let (texts, s') := formulas draws first others depth count s
    .ok (problem texts, s')

end Generator

end TruthTables
