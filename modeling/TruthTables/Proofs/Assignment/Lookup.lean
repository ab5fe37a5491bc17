import Mathlib.Data.List.Nodup
import TruthTables.Proofs.Session.Evaluation

set_option autoImplicit false

/-! # Looking up the values of an assignment

An assignment is asked for a value in three ways: as a valuation it looks at the position of the symbol and
compares the name, `Assignment.get?` looks for the name among its own symbols, and the map of its values
knows the names alone. For a symbol of its own all three answer alike. For a symbol of another set the
valuation answers only if the symbol would be one of its own, so it is the most silent of the three and
never differs where it speaks. Formulas carry this over: a value found with the valuation is the value
found with the map. -/

namespace TruthTables

/-! ## Maps -/

namespace Valuation

/-- Where no name has two entries, looking up a name finds its entry. -/
theorem ofPairs_eq_some_iff {pairs : List (Char × Bool)} (h : (pairs.map Prod.fst).Nodup) (s : Symbol)
    (value : Bool) : ofPairs pairs s = some value ↔ (s.name, value) ∈ pairs := by
  rw [ofPairs, byName]
  constructor
  · intro hlookup
    obtain ⟨pair, hfind, rfl⟩ := Option.map_eq_some_iff.1 hlookup
    have hname : pair.1 = s.name := by simpa using List.find?_some hfind
    rw [← hname]
    exact List.mem_of_find?_eq_some hfind
  · intro hmem
    cases hfind : pairs.find? fun pair => pair.1 == s.name with
    | none => exact absurd (List.find?_eq_none.1 hfind _ hmem) (by simp)
    | some pair =>
        have hname : pair.1 = s.name := by simpa using List.find?_some hfind
        have heq : pair = (s.name, value) :=
          List.inj_on_of_nodup_map h (List.mem_of_find?_eq_some hfind) hmem hname
        rw [heq]
        rfl

/-- In such a map it does not matter which of the entries for a name counts. -/
theorem ofEntries_eq_some_iff {entries : List (Char × Bool)} (h : (entries.map Prod.fst).Nodup)
    (s : Symbol) (value : Bool) : ofEntries entries s = some value ↔ (s.name, value) ∈ entries := by
  have hreverse : (entries.reverse.map Prod.fst).Nodup := by
    rwa [List.map_reverse, List.nodup_reverse]
  rw [ofEntries, ofPairs_eq_some_iff hreverse, List.mem_reverse]

end Valuation

/-! ## The three ways -/

namespace Assignment

variable (a : Assignment) {s : Symbol}

theorem map_fst_toMap : a.toMap.map Prod.fst = a.symbols.names := by
  have hlength : a.symbols.symbols.length ≤ a.values.length := by
    rw [SymbolSet.length_symbols, length_values]
  calc a.toMap.map Prod.fst
    _ = (a.entries.map Prod.fst).map Symbol.name := by
        rw [toMap, List.map_map, List.map_map]
        rfl
    _ = a.symbols.symbols.map Symbol.name := by rw [entries, List.map_fst_zip hlength]
    _ = a.symbols.names := by
        rw [SymbolSet.symbols, List.map_map]
        exact List.zipIdx_map_fst 0 _

/-- The valuation knows the symbols of the assignment and no others. -/
theorem toValuation_eq_some_iff (value : Bool) :
    a.toValuation s = some value ↔ s ∈ a.symbols.symbols ∧ a.values[s.position]? = some value := by
  rw [toValuation, SymbolSet.mem_symbols_iff]
  split
  · next h => simp [h]
  · next h => simp [h]

theorem get?_eq_some_iff (name : Char) (value : Bool) :
    a.get? name = some value ↔
      ∃ s ∈ a.symbols.symbols, s.name = name ∧ a.values[s.position]? = some value := by
  rw [get?, Option.bind_eq_some_iff]
  constructor
  · rintro ⟨s, hs, hvalue⟩
    exact ⟨s, SymbolSet.mem_symbols_of_get? hs, SymbolSet.name_of_get? hs, hvalue⟩
  · rintro ⟨s, hs, rfl, hvalue⟩
    exact ⟨s, SymbolSet.get?_name hs, hvalue⟩

theorem mem_toMap_iff (name : Char) (value : Bool) :
    (name, value) ∈ a.toMap ↔
      ∃ s ∈ a.symbols.symbols, s.name = name ∧ a.values[s.position]? = some value := by
  rw [toMap, List.mem_map]
  constructor
  · rintro ⟨⟨s, value⟩, hmem, heq⟩
    cases heq
    obtain ⟨i, hi⟩ := List.mem_iff_getElem?.1 hmem
    obtain ⟨hs, hvalue⟩ := List.getElem?_zip_eq_some.1 hi
    rw [SymbolSet.getElem?_symbols] at hs
    obtain ⟨name, hname, rfl⟩ := Option.map_eq_some_iff.1 hs
    exact ⟨_, SymbolSet.mem_symbols_iff.2 hname, rfl, hvalue⟩
  · rintro ⟨s, hs, rfl, hvalue⟩
    refine ⟨(s, value), List.mem_iff_getElem?.2 ⟨s.position, ?_⟩, rfl⟩
    exact List.getElem?_zip_eq_some.2 ⟨SymbolSet.getElem?_symbols_of_mem hs, hvalue⟩

/-- The map of an assignment has the values that the assignment has by name. -/
theorem ofEntries_toMap (s : Symbol) : Valuation.ofEntries a.toMap s = a.get? s.name := by
  apply Option.ext
  intro value
  have hnodup : (a.toMap.map Prod.fst).Nodup := a.map_fst_toMap ▸ a.symbols.distinct
  rw [Valuation.ofEntries_eq_some_iff hnodup, mem_toMap_iff, get?_eq_some_iff]

/-- What the valuation says of a symbol is the value of its name. -/
theorem get?_of_toValuation {value : Bool} (h : a.toValuation s = some value) :
    a.get? s.name = some value := by
  obtain ⟨hs, hvalue⟩ := (a.toValuation_eq_some_iff value).1 h
  exact (a.get?_eq_some_iff s.name value).2 ⟨s, hs, rfl, hvalue⟩

/-- Of its own symbols the valuation knows all values. -/
theorem toValuation_eq_get? (h : s ∈ a.symbols.symbols) : a.toValuation s = a.get? s.name := by
  obtain ⟨value, hvalue⟩ := Option.isSome_iff_exists.1 (a.toValuation_covers s h)
  rw [hvalue, a.get?_of_toValuation hvalue]

end Assignment

/-! ## Values of texts -/

namespace Session

/-- An assignment that is used as a valuation never gives a symbol the value of another one. It gives a
    symbol of any set a value exactly if it has a symbol of this name at this position, and then the value
    is the one that it has by name, itself and in its map. So whatever value a text has under the
    assignment, it has under the map. Under an assignment to the symbols of the session, nothing tells the
    two apart. -/
theorem evaluate_toValuation_agrees_with_toMap (a : Assignment) (set : SymbolSet) :
    (∀ sym ∈ set.symbols,
      ((∃ value, a.toValuation sym = some value) ↔
        a.symbols.names[sym.position]? = some sym.name) ∧
      ∀ value, a.toValuation sym = some value →
        a.get? sym.name = some value ∧ (sym.name, value) ∈ a.toMap ∧
          Valuation.ofEntries a.toMap sym = some value) ∧
    ∀ s : Session, s.symbols = set → ∀ text,
      (∀ value, s.evaluate text a.toValuation = .ok value →
        s.evaluate text (.ofEntries a.toMap) = .ok value) ∧
      (a.symbols = set → s.evaluate text a.toValuation = s.evaluate text (.ofEntries a.toMap)) := by
  have hvalue : ∀ sym value, a.toValuation sym = some value →
      Valuation.ofEntries a.toMap sym = some value := by
    intro sym value h
    rw [a.ofEntries_toMap, a.get?_of_toValuation h]
  refine ⟨fun sym _ => ⟨?_, fun value h => ⟨a.get?_of_toValuation h, ?_, hvalue sym value h⟩⟩, ?_⟩
  · rw [← SymbolSet.mem_symbols_iff]
    constructor
    · rintro ⟨value, h⟩
      exact ((a.toValuation_eq_some_iff value).1 h).1
    · exact fun h => Option.isSome_iff_exists.1 (a.toValuation_covers sym h)
  · obtain ⟨hs, hposition⟩ := (a.toValuation_eq_some_iff value).1 h
    exact (a.mem_toMap_iff sym.name value).2 ⟨sym, hs, rfl, hposition⟩
  · rintro s rfl text
    refine ⟨fun value h => s.evaluate_mono text (fun sym _ => hvalue sym) h, fun h => ?_⟩
    apply s.evaluate_congr_symbolsIn text
    intro sym hsym
    have hown : sym ∈ a.symbols.symbols := h ▸ SymbolSet.mem_symbols_of_mem_symbolsIn hsym
    rw [a.toValuation_eq_get? hown, a.ofEntries_toMap]

/-- With `r` between them, `q` is no longer the symbol that an assignment to `p` and `q` knows: the
    assignment says nothing of it, although its map does. -/
theorem evaluate_toValuation_of_moved_symbol :
    ∃ (a : Assignment) (own other : Session), SymbolSet.ofList ["p", "q"] = .ok own.symbols ∧
      SymbolSet.ofList ["p", "r", "q"] = .ok other.symbols ∧ a.symbols = own.symbols ∧
      own.evaluate "p>q" a.toValuation = own.evaluate "p>q" (.ofEntries a.toMap) ∧
      a.get? 'p' = some true ∧ other.evaluate "~p" (.ofEntries a.toMap) = .ok false ∧
      a.get? 'q' = some false ∧ (¬ ∃ value, a.toValuation ⟨'q', 2⟩ = some value) ∧
      other.evaluate "q" a.toValuation = .error (.malformed "q" (.unassigned 'q')) := by
  let pq : SymbolSet := {
    names := ['p', 'q']
    distinct := by decide
    usable := List.forall_mem_cons.2 ⟨rfl, List.forall_mem_singleton.2 rfl⟩
    nonempty := by decide
    few := by decide }
  let prq : SymbolSet := {
    names := ['p', 'r', 'q']
    distinct := by decide
    usable := List.forall_mem_cons.2
      ⟨rfl, List.forall_mem_cons.2 ⟨rfl, List.forall_mem_singleton.2 rfl⟩⟩
    nonempty := by decide
    few := by decide }
  let a : Assignment := { symbols := pq, number := 2, number_lt := by decide }
  obtain ⟨-, hown⟩ := evaluate_toValuation_agrees_with_toMap a pq
  obtain ⟨hsymbol, hother⟩ := evaluate_toValuation_agrees_with_toMap a prq
  have hp : (⟨'p', 0⟩ : Symbol) ∈ prq.symbols := by decide
  have hmoved : (⟨'q', 2⟩ : Symbol) ∈ prq.symbols := by decide
  refine ⟨a, ⟨pq, []⟩, ⟨prq, []⟩, rfl, rfl, rfl, ?_, ?_, ?_, by decide, ?_, by decide⟩
  · exact (hown _ rfl "p>q").2 rfl
  · exact ((hsymbol _ hp).2 true (by decide)).1
  · exact (hother _ rfl "~p").1 false (by decide)
  · rw [(hsymbol _ hmoved).1]
    decide

end Session

end TruthTables
