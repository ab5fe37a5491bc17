import TruthTables.Symbol

set_option autoImplicit false

/-! # Valuations

A valuation supplies truth values for symbols, and may be silent about some. Most valuations look a
symbol up by its name; an assignment (see `TruthTables.Assignment`) also asks for its position. -/

namespace TruthTables

/-- A partial map from symbols to truth values. -/
abbrev Valuation := Symbol → Option Bool

namespace Valuation

/-- The valuation that looks up names. -/
def byName (value? : Char → Option Bool) : Valuation :=
  fun s => value? s.name

/-- The valuation of a list of pairs, of which the first for a name counts. -/
def ofPairs (pairs : List (Char × Bool)) : Valuation :=
  byName fun name => (pairs.find? fun pair => pair.1 == name).map Prod.snd

/-- The valuation of a map written as a list of entries, of which the last for a name counts. -/
def ofEntries (entries : List (Char × Bool)) : Valuation :=
  ofPairs entries.reverse

/-- A later entry replaces the earlier ones for its name and no others. -/
theorem ofEntries_append_singleton (entries : List (Char × Bool)) (name : Char) (value : Bool)
    (s : Symbol) : ofEntries (entries ++ [(name, value)]) s =
      if name = s.name then some value else ofEntries entries s := by
  by_cases h : name = s.name <;> simp [ofEntries, ofPairs, byName, h]

end Valuation

end TruthTables
