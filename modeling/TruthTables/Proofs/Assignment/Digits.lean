import Mathlib.Algebra.BigOperators.Group.Finset.Basic
import Mathlib.Data.Nat.Bitwise
import TruthTables.Command.Tabulate
import TruthTables.Proofs.Assignment.Lookup
import TruthTables.Proofs.Enumeration.Calls

set_option autoImplicit false

/-! # Numbers as vectors of truth values

The number of an assignment and its values are two spellings of one thing. `ofDigits` reads the number off
the values, and undoes `digits` from both sides, so numbers below `2 ^ n` and vectors of `n` truth values
correspond one to one. Since the most significant digit comes first, the order of the numbers is the order
of their digits as text. All this takes place in machine words: there are at most 63 symbols, so neither
the number of assignments nor a shift leaves the 64 bits of a word. -/

namespace TruthTables

/-! ## Numbers from digits -/

/-- The number with the given binary digits, the most significant one first. -/
def ofDigits : List Bool → Nat
  | [] => 0
  | d :: ds => 2 ^ ds.length * d.toNat + ofDigits ds

theorem ofDigits_lt (ds : List Bool) : ofDigits ds < 2 ^ ds.length := by
  induction ds with
  | nil => exact Nat.one_pos
  | cons d ds ih =>
      rw [ofDigits, List.length_cons, Nat.pow_succ]
      cases d <;> simp <;> omega

theorem ofDigits_digits (n number : Nat) : ofDigits (digits n number) = number % 2 ^ n := by
  induction n with
  | zero => exact (Nat.mod_one number).symm
  | succ n ih =>
      rw [digits, ofDigits, length_digits, ih, Nat.toNat_testBit, Nat.mod_pow_succ, Nat.add_comm]

/-- Digits of a number do not depend on higher ones. -/
theorem digits_congr {n i j : Nat} (h : ∀ m < n, i.testBit m = j.testBit m) :
    digits n i = digits n j := by
  induction n with
  | zero => rfl
  | succ n ih =>
      rw [digits, digits, h n (Nat.lt_succ_self n), ih fun m hm => h m (Nat.lt_succ_of_lt hm)]

theorem digits_ofDigits (ds : List Bool) : digits ds.length (ofDigits ds) = ds := by
  induction ds with
  | nil => rfl
  | cons d ds ih =>
      have hbit : ∀ m, (ofDigits (d :: ds)).testBit m =
          if m < ds.length then (ofDigits ds).testBit m else d.toNat.testBit (m - ds.length) :=
        Nat.testBit_two_pow_mul_add _ (ofDigits_lt ds)
      have hhead : (ofDigits (d :: ds)).testBit ds.length = d := by
        rw [hbit, if_neg (Nat.lt_irrefl _), Nat.sub_self]
        cases d <;> rfl
      have htail : digits ds.length (ofDigits (d :: ds)) = digits ds.length (ofDigits ds) :=
        digits_congr fun m hm => by rw [hbit, if_pos hm]
      rw [List.length_cons, digits, hhead, htail, ih]

/-- Each digit counts with the weight of its place. -/
theorem sum_weights (ds : List Bool) :
    ∑ k ∈ Finset.range ds.length with ds[k]? = some true, 2 ^ (ds.length - 1 - k) = ofDigits ds := by
  rw [Finset.sum_filter]
  induction ds with
  | nil => rfl
  | cons d ds ih =>
      have hweight : ∀ k, ds.length + 1 - 1 - (k + 1) = ds.length - 1 - k := by omega
      simp only [List.length_cons, Finset.sum_range_succ', List.getElem?_cons_succ,
        List.getElem?_cons_zero, hweight, ih]
      cases d <;> simp [ofDigits, Nat.add_comm]

/-! ## Digits as text -/

/-- The character of a binary digit. -/
def digitChar (value : Bool) : Char :=
  if value then '1' else '0'

/-- Texts of equally many digits are ordered like their numbers. -/
theorem map_digitChar_lt_iff {ds es : List Bool} (h : ds.length = es.length) :
    ds.map digitChar < es.map digitChar ↔ ofDigits ds < ofDigits es := by
  induction ds generalizing es with
  | nil =>
      obtain rfl := List.length_eq_zero_iff.1 h.symm
      simp
  | cons d ds ih =>
      obtain _ | ⟨e, es⟩ := es
      · exact absurd h (by simp)
      · have hlength : ds.length = es.length := Nat.succ.inj h
        have hds := ofDigits_lt ds
        have hes := ofDigits_lt es
        rw [← hlength] at hes
        rw [List.map_cons, List.map_cons, List.cons_lt_cons_iff, ih hlength, ofDigits, ofDigits,
          ← hlength]
        -- the weight of the first digit exceeds all that the others make up
        cases d <;> cases e <;> simp [digitChar] <;> omega

/-! ## Digits of machine words -/

/-- The number of assignments is a single bit, shifted within a word. -/
theorem toNat_one_shiftLeft {n : Nat} (h : n < 64) :
    ((1 : UInt64) <<< UInt64.ofNat n).toNat = rowCount n := by
  have hlt : 2 ^ n < 2 ^ 64 := Nat.pow_lt_pow_right (by decide) h
  rw [UInt64.toNat_shiftLeft, UInt64.toNat_ofNat', Nat.mod_eq_of_lt (Nat.lt_trans h (by decide)),
    Nat.mod_eq_of_lt h, UInt64.toNat_one, Nat.one_shiftLeft, Nat.mod_eq_of_lt hlt]
  rfl

/-- A digit of a word is its lowest bit after a shift within the word. -/
theorem testBit_toNat_iff (i : UInt64) {m : Nat} (h : m < 64) :
    i.toNat.testBit m = true ↔ (i >>> UInt64.ofNat m) &&& 1 = 1 := by
  have hword : ((i >>> UInt64.ofNat m) &&& 1).toNat = i.toNat / 2 ^ m % 2 := by
    rw [UInt64.toNat_and, UInt64.toNat_shiftRight, UInt64.toNat_ofNat',
      Nat.mod_eq_of_lt (Nat.lt_trans h (by decide)), Nat.mod_eq_of_lt h, UInt64.toNat_one,
      Nat.and_one_is_mod, Nat.shiftRight_eq_div_pow]
  rw [Nat.testBit_eq_decide_div_mod_eq, decide_eq_true_iff, ← hword, ← UInt64.toNat_inj,
    UInt64.toNat_one]

namespace Assignment

variable {set : SymbolSet}

/-! ## Assignments of words -/

/-- The assignment of a word spells out its binary digits, each the value of the symbol at its position,
    whichever way the symbol is looked up. -/
structure Spells (set : SymbolSet) (i : UInt64) (a : Assignment) : Prop where
  symbols : a.symbols = set
  number : a.number = i.toNat
  length : a.values.length = set.size
  digit : ∀ k < set.size, a.values[k]? = some (i.toNat.testBit (set.size - 1 - k))
  /-- The digit is the lowest bit after a shift by fewer than 64 places. -/
  shift : ∀ k < set.size, set.size - 1 - k < 64 ∧
    (a.values[k]? = some true ↔ (i >>> UInt64.ofNat (set.size - 1 - k)) &&& 1 = 1)
  sum : ∑ k ∈ Finset.range set.size with a.values[k]? = some true, 2 ^ (set.size - 1 - k) = i.toNat
  lookups : ∀ s ∈ set.symbols, ∃ value, a.values[s.position]? = some value ∧
    a.get? s.name = some value ∧ a.entries[s.position]? = some (s, value) ∧
    (∀ value', (s.name, value') ∈ a.toMap ↔ value' = value) ∧ a.toValuation s = some value

theorem size_lt (set : SymbolSet) : set.size < 64 :=
  Nat.lt_succ_of_le set.few

theorem ofDigits_values (a : Assignment) : ofDigits a.values = a.number := by
  rw [values, ofDigits_digits]
  exact Nat.mod_eq_of_lt a.number_lt

theorem spells_of_number {i : UInt64} {a : Assignment} (hsymbols : a.symbols = set)
    (hnumber : a.number = i.toNat) : Spells set i a := by
  subst hsymbols
  have hdigit : ∀ k < a.symbols.size,
      a.values[k]? = some (i.toNat.testBit (a.symbols.size - 1 - k)) := by
    intro k hk
    rw [values, getElem?_digits a.number hk, hnumber]
  refine ⟨rfl, hnumber, a.length_values, hdigit, fun k hk => ?_, ?_, fun s hs => ?_⟩
  · have hshift : a.symbols.size - 1 - k < 64 := by
      have := size_lt a.symbols
      omega
    rw [hdigit k hk, ← testBit_toNat_iff i hshift, Option.some_inj]
    exact ⟨hshift, Iff.rfl⟩
  · rw [← hnumber, ← a.ofDigits_values, ← sum_weights, a.length_values]
  · have hvalue := hdigit s.position (SymbolSet.position_lt_of_mem hs)
    have hmap : ∀ value', (s.name, value') ∈ a.toMap ↔ a.get? s.name = some value' := by
      intro value'
      rw [mem_toMap_iff, get?_eq_some_iff]
    have hget : a.get? s.name = some _ := (a.get?_eq_some_iff s.name _).2 ⟨s, hs, rfl, hvalue⟩
    refine ⟨_, hvalue, hget, ?_, fun value' => ?_, (a.toValuation_eq_some_iff _).2 ⟨hs, hvalue⟩⟩
    · exact List.getElem?_zip_eq_some.2 ⟨SymbolSet.getElem?_symbols_of_mem hs, hvalue⟩
    · rw [hmap, hget, Option.some_inj, eq_comm]

/-- Every vector of truth values is that of exactly one number. -/
theorem existsUnique_values {vector : List Bool} (h : vector.length = set.size) :
    ∃! i : UInt64, ∃ a, ofNumber? set i.toNat = some a ∧ a.values = vector := by
  have hlt : ofDigits vector < rowCount set.size := h ▸ ofDigits_lt vector
  have hword : ofDigits vector < 2 ^ 64 := Nat.lt_trans hlt (Enumeration.rowCount_size_lt set)
  have htoNat : (UInt64.ofNat (ofDigits vector)).toNat = ofDigits vector := by
    rw [UInt64.toNat_ofNat', Nat.mod_eq_of_lt hword]
  refine ⟨UInt64.ofNat (ofDigits vector), ⟨⟨set, ofDigits vector, hlt⟩, ?_, ?_⟩, ?_⟩
  · rw [htoNat, ofNumber?_eq_some_iff]
    exact ⟨rfl, rfl⟩
  · show digits set.size (ofDigits vector) = vector
    rw [← h, digits_ofDigits]
  · rintro i ⟨a, ha, rfl⟩
    rw [← UInt64.toNat_inj, htoNat, a.ofDigits_values, (ofNumber?_eq_some_iff.1 ha).2]

/-- Digits as text are ordered like the numbers. -/
theorem bits_lt_iff {a b : Assignment} (h : a.symbols = b.symbols) :
    a.bits < b.bits ↔ a.number < b.number := by
  have hlength : a.values.length = b.values.length := by rw [length_values, length_values, h]
  show a.values.map digitChar < b.values.map digitChar ↔ _
  rw [map_digitChar_lt_iff hlength, ofDigits_values, ofDigits_values]

/-! ## Listing all assignments -/

theorem length_bits (a : Assignment) : a.bits.length = a.symbols.size := by
  rw [bits, List.length_map, length_values]

/-- The listed assignments come in the descending order of their digits as text. -/
theorem pairwise_bitString (session : Session) :
    (session.assignments.toList.map bitString).Pairwise (· > ·) := by
  have hnumbers : (session.assignments.toList.map number).Pairwise (· > ·) := by
    have heq : session.assignments.toList.map number = descending 0 (rowCount session.symbols.size) :=
      Enumeration.numbers_all session.symbols
    rw [heq]
    exact pairwise_descending
  rw [List.pairwise_map] at hnumbers ⊢
  refine hnumbers.imp_of_mem fun {a b} ha hb hlt => ?_
  have hsymbols : b.symbols = a.symbols :=
    (Enumeration.symbols_of_mem_toList hb).trans (Enumeration.symbols_of_mem_toList ha).symm
  rw [gt_iff_lt, String.lt_iff, bitString, bitString, String.toList_ofList, String.toList_ofList,
    bits_lt_iff hsymbols]
  exact hlt

/-- The list of all assignments has a line for each, and the lines are the texts of their digits. -/
theorem assignmentText_eq (session : Session) : Tabulate.assignmentText session =
    String.ofList (Text.unlines ((session.assignments.toList.map bitString).map String.toList)) := by
  have hbits : String.toList ∘ bitString = bits := funext fun a => String.toList_ofList
  rw [List.map_map, hbits]
  rfl

/-- Over the symbols of a set, the 64-bit numbers that have an assignment are those below `2 ^ n`, and no
    count or shift on the way leaves a word. The values of the assignment are the digits of the number,
    whichever way they are looked up, and every vector of `n` truth values belongs to exactly one number.
    Greater numbers have greater texts of digits, so the list of all assignments is made of `2 ^ n`
    different lines of `n` digits each, in descending order. -/
theorem numbers_correspond_to_vectors (set : SymbolSet) :
    (1 ≤ set.size ∧ set.size ≤ 63) ∧
    (rowCount set.size = 2 ^ set.size ∧
      ((1 : UInt64) <<< UInt64.ofNat set.size).toNat = rowCount set.size) ∧
    (∀ i : UInt64, (∃ a, ofNumber? set i.toNat = some a) ↔ i.toNat < 2 ^ set.size) ∧
    (∀ (i : UInt64) (a : Assignment), ofNumber? set i.toNat = some a → Spells set i a) ∧
    (∀ vector : List Bool, vector.length = set.size →
      ∃! i : UInt64, ∃ a, ofNumber? set i.toNat = some a ∧ a.values = vector) ∧
    (∀ (i j : UInt64) (a b : Assignment), ofNumber? set i.toNat = some a →
      ofNumber? set j.toNat = some b → (i < j ↔ a.bitString < b.bitString)) ∧
    ∀ session : Session, session.symbols = set → ∃ lines : List String,
      Tabulate.assignmentText session = String.ofList (Text.unlines (lines.map String.toList)) ∧
      lines.length = 2 ^ set.size ∧ lines.Nodup ∧ lines.Pairwise (· > ·) ∧
      ∀ line ∈ lines, line.length = set.size ∧ ∀ c ∈ line.toList, c = '0' ∨ c = '1' := by
  refine ⟨⟨set.size_pos, set.few⟩, ⟨rfl, toNat_one_shiftLeft (size_lt set)⟩, fun i => ⟨?_, fun h => ?_⟩,
    ?_, fun vector => existsUnique_values, ?_, ?_⟩
  · rintro ⟨a, ha⟩
    obtain ⟨rfl, hnumber⟩ := ofNumber?_eq_some_iff.1 ha
    exact hnumber ▸ a.number_lt
  · exact ⟨⟨set, i.toNat, h⟩, ofNumber?_eq_some_iff.2 ⟨rfl, rfl⟩⟩
  · intro i a ha
    obtain ⟨hsymbols, hnumber⟩ := ofNumber?_eq_some_iff.1 ha
    exact spells_of_number hsymbols hnumber
  · intro i j a b ha hb
    obtain ⟨hasymbols, hanumber⟩ := ofNumber?_eq_some_iff.1 ha
    obtain ⟨hbsymbols, hbnumber⟩ := ofNumber?_eq_some_iff.1 hb
    rw [String.lt_iff, bitString, bitString, String.toList_ofList, String.toList_ofList,
      bits_lt_iff (hasymbols.trans hbsymbols.symm), hanumber, hbnumber, UInt64.lt_iff_toNat_lt]
  · rintro session rfl
    have hdescending := pairwise_bitString session
    refine ⟨_, assignmentText_eq session, ?_, hdescending.imp ?_, hdescending, ?_⟩
    · rw [List.length_map, Enumeration.length_toList, Session.assignments, Enumeration.size_all]
      rfl
    · rintro line line' hgt rfl
      exact String.lt_irrefl line hgt
    · intro line hline
      obtain ⟨a, ha, rfl⟩ := List.mem_map.1 hline
      have hsymbols : a.symbols = session.symbols := Enumeration.symbols_of_mem_toList ha
      rw [bitString, String.length_ofList, String.toList_ofList, length_bits, hsymbols]
      refine ⟨rfl, fun c hc => ?_⟩
      obtain ⟨value, -, rfl⟩ := List.mem_map.1 hc
      cases value <;> simp

/-- The number six over three symbols, and its place between five and seven. -/
theorem numbers_correspond_to_vectors_of_six :
    ∃ set, SymbolSet.ofList ["p", "q", "r"] = .ok set ∧
      ∃ a b, ofNumber? set 6 = some a ∧ ofNumber? set 5 = some b ∧ a.bitString = "110" ∧
        Spells set 6 a ∧ b.bitString < a.bitString ∧
        (¬ ∃ c, ofNumber? set 8 = some c) ∧
        ∃! i : UInt64, ∃ a, ofNumber? set i.toNat = some a ∧ a.values = [true, true, false] := by
  let set : SymbolSet := {
    names := ['p', 'q', 'r']
    distinct := by decide
    usable := List.forall_mem_cons.2
      ⟨rfl, List.forall_mem_cons.2 ⟨rfl, List.forall_mem_singleton.2 rfl⟩⟩
    nonempty := by decide
    few := by decide }
  obtain ⟨-, -, hnumber, hspells, hvector, horder, -⟩ := numbers_correspond_to_vectors set
  refine ⟨set, rfl, ⟨set, 6, by decide⟩, ⟨set, 5, by decide⟩, rfl, rfl, by decide, hspells 6 _ rfl,
    ?_, ?_, ?_⟩
  · exact (horder 5 6 _ _ rfl rfl).1 (by decide)
  · exact mt (hnumber 8).1 (by decide)
  · exact hvector _ rfl

end Assignment

end TruthTables
