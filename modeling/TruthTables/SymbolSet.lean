import TruthTables.Text.Blank
import TruthTables.Text.Quoted
import TruthTables.Token

set_option autoImplicit false

/-! # Symbol sets

The declared symbols of a session, in their order: the first symbol owns the first column of a table
and the leading digit of an assignment's number. A `SymbolSet` is not empty, holds at most
`maxSymbols` distinct names, and no name is a blank or reserved; these facts are fields, so whoever
holds a set may use them. `SymbolSet.ofList` is the only way in from outside and says what is wrong
with a list that is no symbol set.

One list of names is all that is kept. It stands for the sequence of the symbols with their positions,
for the table in which a name is looked up, and, while names are declared, for the collection of those
that were seen. As the names are distinct, each of these can be read off it. -/

namespace TruthTables

/-- The most symbols a set can have: with one more, the number of assignments would not fit a machine
    word of 64 bits. -/
def maxSymbols : Nat := 63

/-- Whether a character may name a symbol. -/
def isUsable (c : Char) : Bool :=
  !Text.isBlank c && !isReserved c

theorem isUsable_iff {c : Char} :
    isUsable c = true ↔ Text.isBlank c = false ∧ isReserved c = false := by
  rw [isUsable, Bool.and_eq_true, Bool.not_eq_true', Bool.not_eq_true']

/-! ## Faults of a symbol list -/

/-- What can be wrong with a symbol list. -/
inductive SymbolFault
  /-- No symbol was declared. -/
  | noSymbols
  /-- An entry is not exactly one character, or is a blank. -/
  | notOneCharacter (entry : String)
  /-- A name was declared before. -/
  | duplicate (name : Char)
  /-- A name is the character of an operator or a parenthesis. -/
  | reserved (name : Char)
  /-- There are more than `maxSymbols` symbols. -/
  | tooMany (count : Nat)
  deriving DecidableEq, Repr

/-- The wording of a fault. -/
def SymbolFault.message : SymbolFault → String
  | .noSymbols => "at least one symbol is required"
  | .notOneCharacter entry =>
    "symbol " ++ Text.quoted entry ++ " is not a single non-whitespace character"
  | .duplicate name => "symbol '" ++ name.toString ++ "' is declared twice"
  | .reserved name => "symbol '" ++ name.toString ++ "' is already an operator"
  | .tooMany count =>
    toString count ++ " symbols given, at most " ++ toString maxSymbols ++ " are supported"

/-! ## Declaring symbols one by one -/

/-- The names declared so far: distinct, and each usable. -/
structure Declarations where
  names : List Char
  distinct : names.Nodup
  usable : ∀ c ∈ names, isUsable c = true

namespace Declarations

/-- Nothing is declared yet. -/
def empty : Declarations where
  names := []
  distinct := .nil
  usable := by simp

/-- Declare one more name, which must be usable and new. -/
def push (d : Declarations) (c : Char) (usable : isUsable c = true) (new : c ∉ d.names) :
    Declarations where
  names := d.names ++ [c]
  distinct := by
    rw [List.nodup_append]
    refine ⟨d.distinct, by simp, fun a ha b hb => ?_⟩
    rw [List.mem_singleton.1 hb]
    exact fun hac => new (hac ▸ ha)
  usable := by
    intro x hx
    rcases List.mem_append.1 hx with hx | hx
    · exact d.usable x hx
    · exact List.mem_singleton.1 hx ▸ usable

/-- Declare one entry of a symbol list. An entry is judged in the order: shape, reserved character,
    repetition. -/
def declare (d : Declarations) (entry : String) : Except SymbolFault Declarations :=
  match entry.toList with
  | [c] =>
    if blank : Text.isBlank c = true then .error (.notOneCharacter entry)
    else if taken : isReserved c = true then .error (.reserved c)
    else if old : c ∈ d.names then .error (.duplicate c)
    else .ok (d.push c (by simp [isUsable, blank, taken]) old)
  | _ => .error (.notOneCharacter entry)

/-- Declare the entries of a list in order, up to the first fault. -/
def declareAll : Declarations → List String → Except SymbolFault Declarations
  | d, [] => .ok d
  | d, entry :: rest =>
    match d.declare entry with
    | .error fault => .error fault
    | .ok d' => d'.declareAll rest

end Declarations

/-! ## Symbol sets -/

/-- Between one and `maxSymbols` distinct usable names, in order. -/
structure SymbolSet extends Declarations where
  nonempty : names ≠ []
  few : names.length ≤ maxSymbols

namespace SymbolSet

/-- Two symbol sets with the same names are the same. -/
theorem ext_names {s t : SymbolSet} (h : s.names = t.names) : s = t := by
  obtain ⟨⟨_, _, _⟩, _, _⟩ := s
  obtain ⟨⟨_, _, _⟩, _, _⟩ := t
  cases h
  rfl

instance : DecidableEq SymbolSet := fun s t =>
  decidable_of_iff (s.names = t.names) ⟨ext_names, fun h => h ▸ rfl⟩

/-- Read a symbol list. The number of symbols is judged last, when every entry is in order. -/
def ofList (entries : List String) : Except SymbolFault SymbolSet :=
  match Declarations.empty.declareAll entries with
  | .error fault => .error fault
  | .ok d =>
    if empty : d.names = [] then .error .noSymbols
    else if many : maxSymbols < d.names.length then .error (.tooMany d.names.length)
    else .ok { d with nonempty := empty, few := Nat.le_of_not_lt many }

/-- The number of symbols. -/
def size (s : SymbolSet) : Nat :=
  s.names.length

/-- The symbols with their positions. -/
def symbols (s : SymbolSet) : List Symbol :=
  s.names.zipIdx.map fun (name, position) => { name, position }

/-- The symbol of a given name. -/
def get? (s : SymbolSet) (name : Char) : Option Symbol :=
  (s.names.idxOf? name).map fun position => { name, position }

/-- Whether a name is declared. -/
def contains (s : SymbolSet) (name : Char) : Bool :=
  s.names.contains name

theorem size_pos (s : SymbolSet) : 0 < s.size :=
  List.length_pos_iff.2 s.nonempty

theorem length_symbols (s : SymbolSet) : s.symbols.length = s.size := by
  simp [symbols, size]

end SymbolSet

end TruthTables
