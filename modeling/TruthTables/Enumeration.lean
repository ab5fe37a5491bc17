import TruthTables.Assignment

set_option autoImplicit false

/-! # Enumerations

All assignments over a symbol set, from all true down to all false, to be taken from either end. What
is left at any time is an interval of numbers `low ≤ number < high`: the front takes the highest one,
the back the lowest one. -/

namespace TruthTables

/-- The assignments with numbers from `low` up to but not including `high`. -/
structure Enumeration where
  symbols : SymbolSet
  low : Nat
  high : Nat
  low_le_high : low ≤ high
  high_le_rowCount : high ≤ rowCount symbols.size

namespace Enumeration

/-- All assignments over a symbol set. -/
def all (symbols : SymbolSet) : Enumeration where
  symbols := symbols
  low := 0
  high := rowCount symbols.size
  low_le_high := Nat.zero_le _
  high_le_rowCount := Nat.le_refl _

/-- The number of assignments left. -/
def size (e : Enumeration) : Nat :=
  e.high - e.low

/-- Take the assignment in front, that with the highest number. -/
def next (e : Enumeration) : Option Assignment × Enumeration :=
  if h : e.low < e.high then
    have := e.high_le_rowCount
    (some { symbols := e.symbols, number := e.high - 1, number_lt := by omega },
      { e with
        high := e.high - 1
        low_le_high := by omega
        high_le_rowCount := by omega })
  else (none, e)

/-- Take `count` assignments in front, which are skipped, and then the next one. When there is none to be
    skipped, there is none to be taken either. -/
def nth : Enumeration → Nat → Option Assignment × Enumeration
  | e, 0 => e.next
  | e, count + 1 =>
    match e.next with
    | (none, rest) => (none, rest)
    | (some _, rest) => rest.nth count

/-- Take the assignment at the back, that with the lowest number. -/
def nextBack (e : Enumeration) : Option Assignment × Enumeration :=
  if h : e.low < e.high then
    have := e.high_le_rowCount
    (some { symbols := e.symbols, number := e.low, number_lt := by omega },
      { e with low := e.low + 1, low_le_high := h })
  else (none, e)

/-- The assignments at most `limit` places from the front, in order. -/
def front (e : Enumeration) (limit : Nat) : List Assignment :=
  have := e.high_le_rowCount
  List.ofFn fun i : Fin (min limit e.size) =>
    { symbols := e.symbols
      number := e.high - 1 - i
      number_lt := by have := i.isLt; simp only [size] at this; omega }

/-- The assignments at most `limit` places from the back, in order. -/
def back (e : Enumeration) (limit : Nat) : List Assignment :=
  have := e.high_le_rowCount
  List.ofFn fun i : Fin (min limit e.size) =>
    { symbols := e.symbols
      number := e.low + i
      number_lt := by have := i.isLt; simp only [size] at this; omega }

/-- All assignments left, in order. -/
def toList (e : Enumeration) : List Assignment :=
  e.front e.size

theorem size_all (symbols : SymbolSet) : (all symbols).size = rowCount symbols.size :=
  Nat.sub_zero _

theorem length_toList (e : Enumeration) : e.toList.length = e.size := by
  simp [toList, front]

end Enumeration

end TruthTables
