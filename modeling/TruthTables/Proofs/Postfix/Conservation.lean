import TruthTables.Postfix.Conversion

set_option autoImplicit false

/-! # What conversion keeps

Conversion moves operators and drops parentheses, whatever the tokens are. It never touches a symbol: a
symbol is released in the step that meets it, and no other step releases any. So the symbols of the
result are those of the tokens in their old order. And what waits on the stack has no parentheses among
its operators, so none are released. Both facts are read off a single step and carried through a run. -/

namespace TruthTables

theorem Token.mem_filterMap_symbol?_iff {tokens : List Token} {s : Symbol} :
    s ∈ tokens.filterMap Token.symbol? ↔ .symbol s ∈ tokens := by
  rw [List.mem_filterMap]
  constructor
  · rintro ⟨t, ht, hs⟩
    cases t <;> simp [symbol?] at hs
    exact hs ▸ ht
  · intro h
    exact ⟨.symbol s, h, rfl⟩

namespace Pending

/-- Operators have no symbols among them. -/
theorem filterMap_symbol?_operators (ops : List Operator) :
    (ops.map Token.operator).filterMap Token.symbol? = [] := by
  simp [List.filterMap_map, Function.comp_def, Token.symbol?]

/-! ## Steps -/

/-- A step releases the symbol that it meets, and no other one. -/
theorem symbols_step (stack : List Pending) (token : Token) :
    (step stack token).1.filterMap Token.symbol? = token.symbol?.toList := by
  cases token with
  | symbol s => rfl
  | operator o => exact filterMap_symbol?_operators _
  | opening => rfl
  | closing => exact filterMap_symbol?_operators _

/-- A step releases no parenthesis. -/
theorem isParenthesis_of_mem_step {stack : List Pending} {token t : Token}
    (h : t ∈ (step stack token).1) : t.isParenthesis = false := by
  cases token with
  | symbol s =>
      cases List.mem_singleton.1 h
      rfl
  | opening => exact absurd h (by simp [step])
  | operator o =>
      obtain ⟨o', -, rfl⟩ := List.mem_map.1 h
      rfl
  | closing =>
      obtain ⟨o', -, rfl⟩ := List.mem_map.1 h
      rfl

/-! ## Runs -/

theorem symbols_convert (stack : List Pending) (tokens : List Token) :
    (convert stack tokens).filterMap Token.symbol? = tokens.filterMap Token.symbol? := by
  induction tokens generalizing stack with
  | nil => exact filterMap_symbol?_operators _
  | cons token rest ih =>
      show ((step stack token).1 ++ convert (step stack token).2 rest).filterMap Token.symbol? = _
      rw [List.filterMap_append, symbols_step, ih]
      cases token <;> rfl

theorem isParenthesis_of_mem_convert {stack : List Pending} {tokens : List Token} {t : Token}
    (h : t ∈ convert stack tokens) : t.isParenthesis = false := by
  induction tokens generalizing stack with
  | nil =>
      obtain ⟨o, -, rfl⟩ := List.mem_map.1 h
      rfl
  | cons token rest ih =>
      rcases List.mem_append.1 h with h | h
      · exact isParenthesis_of_mem_step h
      · exact ih h

end Pending

namespace Postfix

/-- The symbols of a converted formula are those of its tokens, in the same order. -/
theorem symbols_ofTokens (tokens : List Token) :
    (ofTokens tokens).symbols = tokens.filterMap Token.symbol? :=
  Pending.symbols_convert [] tokens

/-- No parenthesis is left in a converted formula. -/
theorem isParenthesis_of_mem_ofTokens {tokens : List Token} {t : Token}
    (h : t ∈ (ofTokens tokens).tokens) : t.isParenthesis = false :=
  Pending.isParenthesis_of_mem_convert h

end Postfix

end TruthTables
