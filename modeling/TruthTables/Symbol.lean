set_option autoImplicit false

/-! # Symbols

A propositional symbol is a character together with its position in the list it was declared in. The
position is what identifies a symbol: two symbols of different lists coincide when their positions do,
whatever they are called. Lean's own equality compares names as well and is the finer of the two;
`coincides_of_eq` is the direction that always holds. -/

namespace TruthTables

/-- A named symbol at a position of its symbol set. -/
structure Symbol where
  name : Char
  position : Nat
  deriving DecidableEq, Repr

namespace Symbol

/-- Whether two symbols stand at the same position. -/
def coincides (a b : Symbol) : Bool :=
  a.position == b.position

/-- Symbols in the order of their positions. -/
def order (a b : Symbol) : Ordering :=
  compare a.position b.position

theorem coincides_of_eq {a b : Symbol} (h : a = b) : a.coincides b = true := by
  simp [coincides, h]

theorem order_eq_iff (a b : Symbol) : a.order b = .eq ↔ a.coincides b = true := by
  simp [order, coincides]

end Symbol

end TruthTables
