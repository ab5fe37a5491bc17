import TruthTables.Operator
import TruthTables.Symbol

set_option autoImplicit false

/-! # Tokens

The words of a formula. Every token is written with a single character, so the text of a token list
is a list of the same length. -/

namespace TruthTables

/-- A word of a formula. -/
inductive Token
  | symbol (s : Symbol)
  | operator (o : Operator)
  | opening
  | closing
  deriving DecidableEq, Repr

namespace Token

/-- The character that writes a token. -/
def char : Token → Char
  | .symbol s => s.name
  | .operator o => o.char
  | .opening => '('
  | .closing => ')'

/-- Whether a token is one of the two parentheses. -/
def isParenthesis : Token → Bool
  | .opening | .closing => true
  | .symbol _ | .operator _ => false

/-- The symbol of a symbol token. -/
def symbol? : Token → Option Symbol
  | .symbol s => some s
  | .operator _ | .opening | .closing => none

/-- Equality of tokens in which symbols are told apart by position alone. -/
def coincides : Token → Token → Bool
  | .symbol a, .symbol b => a.coincides b
  | .operator a, .operator b => a == b
  | .opening, .opening => true
  | .closing, .closing => true
  | _, _ => false

end Token

/-! ## Reserved characters -/

/-- The characters of operators and parentheses, which no symbol can have as its name. -/
def reserved : List Char :=
  ['~', '>', '^', '|', '(', ')']

/-- Whether a character writes an operator or a parenthesis. -/
def isReserved (c : Char) : Bool :=
  reserved.contains c

/-- Whether a reserved character can begin a formula. -/
def canBegin (c : Char) : Bool :=
  c == '~' || c == '('

theorem isReserved_operator (o : Operator) : isReserved o.char = true := by
  cases o with
  | binary c => cases c <;> decide
  | not => decide

/-- The reserved characters are those of the operators and of the parentheses. -/
theorem isReserved_iff (c : Char) :
    isReserved c = true ↔ c = '(' ∨ c = ')' ∨ ∃ o, Operator.ofChar? c = some o := by
  constructor
  · intro h
    have h' : c ∈ reserved := by simpa [isReserved] using h
    simp only [reserved, List.mem_cons, List.not_mem_nil, or_false] at h'
    rcases h' with rfl | rfl | rfl | rfl | rfl | rfl
    · exact Or.inr (Or.inr ⟨.not, rfl⟩)
    · exact Or.inr (Or.inr ⟨.binary .implies, rfl⟩)
    · exact Or.inr (Or.inr ⟨.binary .and, rfl⟩)
    · exact Or.inr (Or.inr ⟨.binary .or, rfl⟩)
    · exact Or.inl rfl
    · exact Or.inr (Or.inl rfl)
  · rintro (rfl | rfl | ⟨o, ho⟩)
    · rfl
    · rfl
    · exact Operator.char_of_ofChar? ho ▸ isReserved_operator o

end TruthTables
