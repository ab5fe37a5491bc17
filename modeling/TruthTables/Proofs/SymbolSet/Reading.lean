import Mathlib.Data.List.Nodup
import Mathlib.Data.Nat.Find
import TruthTables.SymbolSet

set_option autoImplicit false

/-! # Reading a symbol list

A symbol set is its list. Names stand at the positions of their entries, so looking up a name and looking
at a position are inverse to each other. A list that is no symbol set is refused for its first entry at
fault, where an entry is judged with an eye on those in front of it (`EntryFault`); only when no entry is
to blame does the number of entries matter.

While a list is read it is one list split in two, the entries that are declared and those to come.
The faults are those of the whole list (`FaultAt`), wherever the split is
(`Declarations.declareAll_eq_error_iff`). -/

namespace TruthTables

/-! ## Looking up -/

namespace SymbolSet

variable {set : SymbolSet}

theorem getElem?_symbols (position : Nat) :
    set.symbols[position]? = set.names[position]?.map fun name => { name, position } := by
  simp [symbols, List.getElem?_map, List.getElem?_zipIdx, Function.comp_def]

/-- A symbol belongs to a set if the set has its name at its position. -/
theorem mem_symbols_iff {s : Symbol} : s ∈ set.symbols ↔ set.names[s.position]? = some s.name := by
  constructor
  · intro h
    obtain ⟨position, hposition⟩ := List.getElem?_of_mem h
    rw [getElem?_symbols] at hposition
    obtain ⟨name, hname, rfl⟩ := Option.map_eq_some_iff.1 hposition
    exact hname
  · intro h
    have hposition : set.symbols[s.position]? = some s := by rw [getElem?_symbols, h]; rfl
    exact List.mem_of_getElem? hposition

theorem getElem?_symbols_of_mem {s : Symbol} (h : s ∈ set.symbols) :
    set.symbols[s.position]? = some s := by
  rw [getElem?_symbols, mem_symbols_iff.1 h]
  rfl

theorem position_lt_of_mem {s : Symbol} (h : s ∈ set.symbols) : s.position < set.size :=
  (List.getElem?_eq_some_iff.1 (mem_symbols_iff.1 h)).1

theorem mem_symbols_of_get? {name : Char} {s : Symbol} (h : set.get? name = some s) :
    s ∈ set.symbols := by
  obtain ⟨position, hposition, rfl⟩ := Option.map_eq_some_iff.1 h
  rw [mem_symbols_iff]
  obtain ⟨hlt, hname, -⟩ := List.idxOf?_eq_some_iff.1 hposition
  exact List.getElem?_eq_some_iff.2 ⟨hlt, hname⟩

theorem name_of_get? {name : Char} {s : Symbol} (h : set.get? name = some s) : s.name = name := by
  obtain ⟨position, -, rfl⟩ := Option.map_eq_some_iff.1 h
  rfl

/-- Looking up the name of a declared symbol finds the symbol. -/
theorem get?_name {s : Symbol} (h : s ∈ set.symbols) : set.get? s.name = some s := by
  obtain ⟨hlt, hname⟩ := List.getElem?_eq_some_iff.1 (mem_symbols_iff.1 h)
  have hposition : set.names.idxOf? s.name = some s.position := by
    refine List.idxOf?_eq_some_iff.2 ⟨hlt, hname, ?_⟩
    intro j hj heq
    -- a name in front of it would be declared twice
    have hne := List.pairwise_iff_getElem.1 set.distinct j s.position (Nat.lt_trans hj hlt) hlt hj
    exact hne (heq.trans hname.symm)
  rw [get?, hposition]
  rfl

/-- The symbol that is found for a name is the one that the set has under this name. -/
theorem get?_eq_some_iff {name : Char} {s : Symbol} :
    set.get? name = some s ↔ s ∈ set.symbols ∧ s.name = name := by
  constructor
  · intro h
    exact ⟨mem_symbols_of_get? h, name_of_get? h⟩
  · rintro ⟨hs, rfl⟩
    exact get?_name hs

theorem contains_eq_isSome_get? (set : SymbolSet) (c : Char) :
    set.contains c = (set.get? c).isSome := by
  rw [contains, get?, Option.isSome_map, Bool.eq_iff_iff, List.contains_iff_mem,
    List.isSome_idxOf?]

end SymbolSet

/-! ## Faults of entries -/

/-- What is wrong with an entry behind others. Its shape is judged first, then whether its character is
    reserved, then whether one of the others is the same. -/
inductive EntryFault (earlier : List String) (entry : String) : SymbolFault → Prop
  | shape (h : ∀ c, entry.toList = [c] → Text.isBlank c = true) :
      EntryFault earlier entry (.notOneCharacter entry)
  | taken {c : Char} (h : entry.toList = [c]) (hblank : Text.isBlank c = false)
      (hreserved : isReserved c = true) : EntryFault earlier entry (.reserved c)
  | repeated {c : Char} (h : entry.toList = [c]) (hblank : Text.isBlank c = false)
      (hreserved : isReserved c = false) (hearlier : entry ∈ earlier) :
      EntryFault earlier entry (.duplicate c)

/-- The entry at this position has a fault. -/
def FaultAt (entries : List String) (position : Nat) (fault : SymbolFault) : Prop :=
  ∃ entry, entries[position]? = some entry ∧ EntryFault (entries.take position) entry fault

/-- The entry at this position has a fault, and none in front of it has. -/
def FirstFaultAt (entries : List String) (position : Nat) (fault : SymbolFault) : Prop :=
  FaultAt entries position fault ∧ ∀ i < position, ∀ other, ¬ FaultAt entries i other

theorem char_toString_injective : Function.Injective Char.toString :=
  fun _ _ => String.singleton_inj.1

theorem toList_eq_singleton_iff {entry : String} {c : Char} :
    entry.toList = [c] ↔ entry = c.toString := by
  rw [← String.toList_singleton c]
  exact String.toList_inj

theorem faultAt_length_iff {front behind : List String} {entry : String} {fault : SymbolFault} :
    FaultAt (front ++ entry :: behind) front.length fault ↔ EntryFault front entry fault := by
  simp [FaultAt, List.take_left']

/-- If any entry is at fault, then one is the first. -/
theorem exists_firstFaultAt {entries : List String} {i : Nat} {fault : SymbolFault}
    (h : FaultAt entries i fault) : ∃ j first, FirstFaultAt entries j first := by
  classical
  have hsome : ∃ j, ∃ other, FaultAt entries j other := ⟨i, fault, h⟩
  obtain ⟨first, hfirst⟩ := Nat.find_spec hsome
  exact ⟨Nat.find hsome, first, hfirst, fun j hj other hother => Nat.find_min hsome hj ⟨other, hother⟩⟩

/-- There is no fault in a list of distinct usable characters. -/
theorem not_faultAt {entries : List String}
    (h : ∀ entry ∈ entries, ∃ c, entry = c.toString ∧ Text.isBlank c = false ∧ isReserved c = false)
    (hdistinct : entries.Nodup) (i : Nat) (fault : SymbolFault) : ¬ FaultAt entries i fault := by
  rintro ⟨entry, hentry, hfault⟩
  obtain ⟨c, rfl, hblank, hreserved⟩ := h entry (List.mem_of_getElem? hentry)
  have hone : ∀ d, (c.toString).toList = [d] → c = d := by
    intro d hd
    exact char_toString_injective (toList_eq_singleton_iff.1 hd)
  cases hfault with
  | shape hshape =>
      rw [hshape c (String.toList_singleton c)] at hblank
      exact absurd hblank (by decide)
  | taken hd _ htaken =>
      rw [← hone _ hd, hreserved] at htaken
      exact absurd htaken (by decide)
  | repeated hd _ _ hearlier =>
      -- the entry would stand in front of its position and behind it
      have hbehind : c.toString ∈ entries.drop i := by
        refine List.mem_of_getElem? (i := 0) ?_
        rwa [List.getElem?_drop, Nat.add_zero]
      exact List.disjoint_of_nodup_append ((List.take_append_drop i entries).symm ▸ hdistinct)
        hearlier hbehind

/-! ## Declaring entries -/

namespace Declarations

variable {d d' : Declarations}

/-- Declaring an entry reports its fault behind the entries that are declared. -/
theorem declare_eq_error_iff (d : Declarations) (entry : String) (fault : SymbolFault) :
    d.declare entry = .error fault ↔ EntryFault (d.names.map Char.toString) entry fault := by
  constructor
  · intro h
    rw [declare] at h
    split at h
    · next c hentry =>
        split_ifs at h with hblank htaken hold
        · cases h
          refine .shape fun d hd => ?_
          rwa [(List.cons.inj (hd.symm.trans hentry)).1]
        · cases h
          exact .taken hentry (by simpa using hblank) htaken
        · cases h
          exact .repeated hentry (by simpa using hblank) (by simpa using htaken)
            (toList_eq_singleton_iff.1 hentry ▸ List.mem_map_of_mem hold)
    · next hshape =>
        cases h
        exact .shape fun c hc => absurd hc (hshape c)
  · intro h
    rw [declare]
    cases h with
    | shape hshape =>
        split
        · next c hentry => rw [dif_pos (hshape c hentry)]
        · rfl
    | taken hentry hblank hreserved => simp [hentry, hblank, hreserved]
    | repeated hentry hblank hreserved hearlier =>
        obtain ⟨c, hc, rfl⟩ := List.mem_map.1 hearlier
        obtain rfl := char_toString_injective (toList_eq_singleton_iff.1 hentry)
        simp [hblank, hreserved, hc]

theorem exists_char_of_declare {entry : String}
    (h : d.declare entry = .ok d') : ∃ c, entry = c.toString ∧ d'.names = d.names ++ [c] := by
  rw [declare] at h
  split at h
  · next c hentry =>
      split_ifs at h
      cases h
      exact ⟨c, toList_eq_singleton_iff.1 hentry, rfl⟩
  · exact absurd h (by simp)

theorem map_names_of_declareAll {entries : List String}
    (h : d.declareAll entries = .ok d') :
    d'.names.map Char.toString = d.names.map Char.toString ++ entries := by
  induction entries generalizing d with
  | nil =>
      cases h
      rw [List.append_nil]
  | cons entry rest ih =>
      rw [declareAll] at h
      split at h
      · exact absurd h (by simp)
      · next d₁ hfirst =>
          obtain ⟨c, rfl, hnames⟩ := exists_char_of_declare hfirst
          rw [ih h, hnames, List.map_append, List.append_assoc]
          rfl

/-- With the entries in front declared and without fault, declaring the others reports the first fault
    of the whole list. -/
theorem declareAll_eq_error_iff {front rest : List String}
    (hfront : d.names.map Char.toString = front)
    (hclean : ∀ i < front.length, ∀ other, ¬ FaultAt (front ++ rest) i other) (fault : SymbolFault) :
    d.declareAll rest = .error fault ↔ ∃ i, FirstFaultAt (front ++ rest) i fault := by
  induction rest generalizing d front with
  | nil =>
      have hnone : ¬ ∃ i, FirstFaultAt (front ++ []) i fault := by
        rintro ⟨i, hfault, -⟩
        obtain ⟨entry, hentry, -⟩ := id hfault
        rw [List.append_nil] at hentry
        exact hclean i (List.getElem?_eq_some_iff.1 hentry).1 fault hfault
      exact iff_of_false (by simp [declareAll]) hnone
  | cons entry rest ih =>
      rw [declareAll]
      cases hfirst : d.declare entry with
      | error other =>
          have hother : FaultAt (front ++ entry :: rest) front.length other := by
            rw [faultAt_length_iff, ← hfront, ← declare_eq_error_iff, hfirst]
          constructor
          · intro h
            cases h
            exact ⟨front.length, hother, hclean⟩
          · rintro ⟨i, hfault, hearlier⟩
            rcases Nat.lt_trichotomy i front.length with hlt | rfl | hgt
            · exact absurd hfault (hclean i hlt fault)
            · rwa [faultAt_length_iff, ← hfront, ← declare_eq_error_iff, hfirst] at hfault
            · exact absurd hother (hearlier front.length hgt other)
      | ok d' =>
          obtain ⟨c, rfl, hnames⟩ := exists_char_of_declare hfirst
          have hfront' : d'.names.map Char.toString = front ++ [c.toString] := by
            rw [hnames, List.map_append, hfront]
            rfl
          have hsplit : front ++ c.toString :: rest = (front ++ [c.toString]) ++ rest :=
            List.append_cons front c.toString rest
          have hgood : ∀ other, ¬ FaultAt (front ++ c.toString :: rest) front.length other := by
            intro other
            rw [faultAt_length_iff, ← hfront, ← declare_eq_error_iff, hfirst]
            simp
          rw [hsplit] at hclean hgood ⊢
          refine ih hfront' ?_
          intro i hi other
          rw [List.length_append, List.length_singleton, Nat.lt_succ_iff_lt_or_eq] at hi
          rcases hi with hlt | rfl
          · exact hclean i hlt other
          · exact hgood other

end Declarations

/-! ## Symbol lists -/

namespace SymbolSet

variable {set : SymbolSet} {entries : List String}

/-- A symbol set has the names that its list spells. -/
theorem map_names_of_ofList (h : ofList entries = .ok set) : set.names.map Char.toString = entries := by
  rw [ofList] at h
  split at h
  · exact absurd h (by simp)
  · next d hd =>
      split_ifs at h
      cases h
      exact Declarations.map_names_of_declareAll hd

theorem getElem?_names_iff (h : ofList entries = .ok set) (i : Nat) (c : Char) :
    set.names[i]? = some c ↔ entries[i]? = some c.toString := by
  rw [← map_names_of_ofList h, List.getElem?_map]
  exact (Option.map_injective char_toString_injective).eq_iff.symm

/-- The first fault of an entry is reported, or else that there are too few or too many. -/
theorem ofList_eq_error_iff (entries : List String) (fault : SymbolFault) :
    ofList entries = .error fault ↔
      (∃ i, FirstFaultAt entries i fault) ∨
      (∀ i other, ¬ FaultAt entries i other) ∧
        (entries = [] ∧ fault = .noSymbols ∨
          maxSymbols < entries.length ∧ fault = .tooMany entries.length) := by
  have hdeclare : ∀ first, Declarations.empty.declareAll entries = .error first ↔
      ∃ i, FirstFaultAt entries i first :=
    @Declarations.declareAll_eq_error_iff .empty [] entries rfl (by simp)
  rw [ofList]
  cases hd : Declarations.empty.declareAll entries with
  | error first =>
      obtain ⟨i, hfirst⟩ := (hdeclare first).1 hd
      rw [← hdeclare, hd]
      simp only [Except.error.injEq]
      exact (or_iff_left fun h => h.1 i first hfirst.1).symm
  | ok d =>
      have hnone : ∀ i other, ¬ FaultAt entries i other := by
        intro i other hother
        obtain ⟨j, first, hfirst⟩ := exists_firstFaultAt hother
        have herror := (hdeclare first).2 ⟨j, hfirst⟩
        exact absurd (herror.symm.trans hd) (by simp)
      have hfirst : ¬ ∃ i, FirstFaultAt entries i fault := fun ⟨i, h⟩ => hnone i fault h.1
      have hnames : d.names.map Char.toString = entries := Declarations.map_names_of_declareAll hd
      have hempty : d.names = [] ↔ entries = [] := by rw [← hnames, List.map_eq_nil_iff]
      have hlength : d.names.length = entries.length := by rw [← hnames, List.length_map]
      rw [or_iff_right hfirst, and_iff_right hnone, ← hempty, ← hlength]
      simp only
      split_ifs with hnil hmany
      · simp [hnil, eq_comm]
      · simp [hnil, hmany, eq_comm]
      · simp [hnil, hmany]

/-- A symbol list is a list of one to `maxSymbols` distinct usable characters. -/
theorem exists_ofList_iff (entries : List String) :
    (∃ set, ofList entries = .ok set) ↔
      1 ≤ entries.length ∧ entries.length ≤ maxSymbols ∧
        (∀ entry ∈ entries,
          ∃ c, entry = c.toString ∧ Text.isBlank c = false ∧ isReserved c = false) ∧
        entries.Nodup := by
  constructor
  · rintro ⟨set, hset⟩
    have hnames := map_names_of_ofList hset
    subst hnames
    rw [List.length_map, List.nodup_map_iff char_toString_injective]
    refine ⟨set.size_pos, set.few, ?_, set.distinct⟩
    intro entry hentry
    obtain ⟨c, hc, rfl⟩ := List.mem_map.1 hentry
    exact ⟨c, rfl, isUsable_iff.1 (set.usable c hc)⟩
  · rintro ⟨hsome, hfew, husable, hdistinct⟩
    cases hset : ofList entries with
    | ok set => exact ⟨set, rfl⟩
    | error fault =>
        rcases (ofList_eq_error_iff entries fault).1 hset with ⟨i, hfault, -⟩ | ⟨-, hcount⟩
        · exact absurd hfault (not_faultAt husable hdistinct i fault)
        · rcases hcount with ⟨rfl, -⟩ | ⟨hmany, -⟩
          · exact absurd hsome (by decide)
          · exact absurd hfew (Nat.not_le_of_lt hmany)

/-- A list is a symbol set if it consists of one to `maxSymbols` distinct characters that are neither
    blank nor reserved. The set then has its entries as names, in their order, and a name is found
    together with the position of its entry, whichever of the two is asked for. Otherwise the first
    entry at fault is reported, and that there are too few or too many entries only if none is. -/
theorem ofList_reports_first_fault (entries : List String) :
    ((∃ set, ofList entries = .ok set) ↔
      1 ≤ entries.length ∧ entries.length ≤ maxSymbols ∧
        (∀ entry ∈ entries,
          ∃ c, entry = c.toString ∧ Text.isBlank c = false ∧ isReserved c = false) ∧
        entries.Nodup) ∧
    (∀ set, ofList entries = .ok set →
      set.names.map Char.toString = entries ∧
      (∀ (c : Char) (s : Symbol),
        set.get? c = some s ↔ s.name = c ∧ entries[s.position]? = some c.toString) ∧
      (∀ c, set.contains c = true ↔ ∃ s, set.get? c = some s) ∧
      ∀ (i : Nat) (s : Symbol),
        set.symbols[i]? = some s ↔ s.position = i ∧ entries[i]? = some s.name.toString) ∧
    ∀ fault, ofList entries = .error fault ↔
      (∃ i, FirstFaultAt entries i fault) ∨
      (∀ i other, ¬ FaultAt entries i other) ∧
        (entries = [] ∧ fault = .noSymbols ∨
          maxSymbols < entries.length ∧ fault = .tooMany entries.length) := by
  refine ⟨exists_ofList_iff entries, fun set hset => ⟨map_names_of_ofList hset, ?_, ?_, ?_⟩,
    ofList_eq_error_iff entries⟩
  · intro c s
    rw [get?_eq_some_iff, mem_symbols_iff, getElem?_names_iff hset, and_comm]
    exact and_congr_right fun hname => by rw [hname]
  · intro c
    rw [contains_eq_isSome_get?, Option.isSome_iff_exists]
  · intro i s
    rw [getElem?_symbols, Option.map_eq_some_iff]
    simp only [getElem?_names_iff hset]
    constructor
    · rintro ⟨name, hname, rfl⟩
      exact ⟨rfl, hname⟩
    · rintro ⟨rfl, hname⟩
      exact ⟨s.name, hname, rfl⟩

/-- The reserved entry is reported and not the repeated one behind it; without both, the second symbol
    is found at the second place. -/
theorem ofList_reports_reserved_entry :
    ofList ["p", "~", "p"] = .error (.reserved '~') ∧
    ∃ set, ofList ["p", "q"] = .ok set ∧ set.get? 'q' = some ⟨'q', 1⟩ := by
  constructor
  · refine ((ofList_reports_first_fault ["p", "~", "p"]).2.2 _).2 (.inl ⟨1, ⟨"~", rfl, ?_⟩, ?_⟩)
    · exact .taken rfl (by decide) (by decide)
    · intro i hi other hother
      obtain rfl : i = 0 := Nat.lt_one_iff.1 hi
      obtain ⟨entry, hentry, hfault⟩ := hother
      cases hentry
      cases hfault with
      | shape h => exact absurd (h 'p' rfl) (by decide)
      | taken h _ htaken =>
          cases h
          exact absurd htaken (by decide)
      | repeated _ _ _ hearlier => exact absurd hearlier (by simp)
  · have husable : ∀ entry ∈ ["p", "q"],
        ∃ c : Char, entry = c.toString ∧ Text.isBlank c = false ∧ isReserved c = false := by
      intro entry hentry
      rcases List.mem_pair.1 hentry with rfl | rfl
      · exact ⟨'p', rfl, by decide, by decide⟩
      · exact ⟨'q', rfl, by decide, by decide⟩
    obtain ⟨haccepts, hset, -⟩ := ofList_reports_first_fault ["p", "q"]
    obtain ⟨set, h⟩ := haccepts.2 ⟨by decide, by decide, husable, by decide⟩
    exact ⟨set, h, ((hset set h).2.1 'q' ⟨'q', 1⟩).2 ⟨rfl, rfl⟩⟩

end SymbolSet

end TruthTables
