import TruthTables.SymbolSet
import TruthTables.Text.Padding
import TruthTables.Valuation

set_option autoImplicit false

/-! # Assignments

An assignment gives every symbol of a set a truth value. The assignments over `n` symbols are numbered
from 0 to `2 ^ n - 1`: the binary digits of the number, the most significant one first, are the values of
the symbols in their order. So an assignment is a number with a bound. -/

namespace TruthTables

/-- The number of assignments over `n` symbols. -/
def rowCount (n : Nat) : Nat :=
  Nat.pow 2 n

/-- The lowest `n` binary digits of a number, the most significant one first. -/
def digits : Nat → Nat → List Bool
  | 0, _ => []
  | n + 1, number => number.testBit n :: digits n number

theorem length_digits (n number : Nat) : (digits n number).length = n := by
  induction n with
  | zero => rfl
  | succ n ih => simp [digits, ih]

theorem getElem?_digits {n position : Nat} (number : Nat) (h : position < n) :
    (digits n number)[position]? = some (number.testBit (n - 1 - position)) := by
  induction n generalizing position with
  | zero => exact absurd h (Nat.not_lt_zero _)
  | succ n ih =>
    cases position with
    | zero => rfl
    | succ position =>
      rw [digits, List.getElem?_cons_succ, ih (Nat.lt_of_succ_lt_succ h)]
      congr 2
      omega

/-- A numbered assignment over a symbol set. -/
structure Assignment where
  symbols : SymbolSet
  number : Nat
  number_lt : number < rowCount symbols.size
  deriving DecidableEq

namespace Assignment

/-- The assignment of the given number, if there is one. -/
def ofNumber? (symbols : SymbolSet) (number : Nat) : Option Assignment :=
  if h : number < rowCount symbols.size then some { symbols, number, number_lt := h } else none

/-- The truth values of the symbols in their order. -/
def values (a : Assignment) : List Bool :=
  digits a.symbols.size a.number

/-- The value of the symbol with a given name. -/
def get? (a : Assignment) (name : Char) : Option Bool :=
  (a.symbols.get? name).bind fun s => a.values[s.position]?

/-- The symbols and their values in order. -/
def entries (a : Assignment) : List (Symbol × Bool) :=
  a.symbols.symbols.zip a.values

/-- The values by name. -/
def toMap (a : Assignment) : List (Char × Bool) :=
  a.entries.map fun (s, value) => (s.name, value)

/-- An assignment supplies the value of a symbol only if its own symbol at that position has the same
    name. -/
def toValuation (a : Assignment) : Valuation :=
  fun s => if a.symbols.names[s.position]? = some s.name then a.values[s.position]? else none

/-- The values as binary digits. -/
def bits (a : Assignment) : List Char :=
  a.values.map fun value => if value then '1' else '0'

/-- The binary digits as a string. -/
def bitString (a : Assignment) : String :=
  String.ofList a.bits

/-- The binary digits in a field: cut down to `precision` characters if one is given, then padded. -/
def format (a : Assignment) (align : Text.Alignment) (fill : Char) (width : Nat)
    (precision : Option Nat) : String :=
  let shown := match precision with
    | some n => a.bits.take n
    | none => a.bits
  String.ofList (Text.pad align fill width shown)

theorem length_values (a : Assignment) : a.values.length = a.symbols.size :=
  length_digits _ _

end Assignment

end TruthTables
