import Mathlib.Data.Nat.Bitwise
import TruthTables.Enumeration
import TruthTables.Proofs.SymbolSet.Reading

set_option autoImplicit false

/-! # Assignments and valuations

Each assignment is a valuation of its own symbols, and up to the values of other symbols there are no more
valuations than assignments: whatever values the symbols of a set have, some number has them as its binary
digits (`Assignment.ofValuation`). So what holds under every assignment holds under every valuation that
gives all symbols a value. -/

namespace TruthTables

/-- A valuation gives every symbol of a set a value. -/
def Valuation.Covers (v : Valuation) (set : SymbolSet) : Prop :=
  ∀ s ∈ set.symbols, (v s).isSome = true

namespace Assignment

theorem ofNumber?_eq_some_iff {set : SymbolSet} {number : Nat} {a : Assignment} :
    ofNumber? set number = some a ↔ a.symbols = set ∧ a.number = number := by
  rw [ofNumber?]
  constructor
  · intro h
    split at h
    · cases h
      exact ⟨rfl, rfl⟩
    · exact absurd h (by simp)
  · rintro ⟨rfl, rfl⟩
    exact dif_pos a.number_lt

theorem toValuation_eq_some (a : Assignment) {s : Symbol} (h : s ∈ a.symbols.symbols) :
    a.toValuation s = some (a.number.testBit (a.symbols.size - 1 - s.position)) := by
  rw [toValuation, if_pos (SymbolSet.mem_symbols_iff.1 h), values,
    getElem?_digits a.number (SymbolSet.position_lt_of_mem h)]

theorem toValuation_covers (a : Assignment) : a.toValuation.Covers a.symbols := by
  intro s hs
  rw [a.toValuation_eq_some hs]
  rfl

/-- The assignment with the values of a valuation, and false where there is none. -/
def ofValuation (set : SymbolSet) (v : Valuation) : Assignment where
  symbols := set
  number := Nat.ofBits fun i : Fin set.size =>
    ((set.symbols[set.size - 1 - i.val]?).bind v).getD false
  number_lt := Nat.ofBits_lt_two_pow _

theorem toValuation_ofValuation {set : SymbolSet} {v : Valuation} (hv : v.Covers set) :
    ∀ s ∈ set.symbols, (ofValuation set v).toValuation s = v s := by
  intro s hs
  have hlt := SymbolSet.position_lt_of_mem hs
  have hfrom : set.size - 1 - (set.size - 1 - s.position) = s.position := by omega
  obtain ⟨value, hvalue⟩ := Option.isSome_iff_exists.1 (hv s hs)
  rw [toValuation_eq_some _ hs]
  show some ((Nat.ofBits _).testBit (set.size - 1 - s.position)) = v s
  rw [Nat.testBit_ofBits_lt _ _ (by omega)]
  simp only [hfrom, SymbolSet.getElem?_symbols_of_mem hs, Option.bind_some, hvalue,
    Option.getD_some]

end Assignment

end TruthTables
