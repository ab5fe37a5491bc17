import TruthTables.Postfix.Conversion

set_option autoImplicit false

/-! # Renaming symbols

No part of the work on a program tells one symbol from another. Conversion looks at the kind of a token,
the check counts, and evaluation asks the valuation. So all of them go along with a map of symbols: it does
not matter whether symbols are renamed before or after conversion, a renamed program passes the check when
the program does, and it has the same value where a renamed symbol has the value of the symbol. Only an
error can show a symbol, and it shows nothing but the name. -/

namespace TruthTables

/-- Put another symbol in the place of the symbol of a token. -/
def Token.rename (f : Symbol → Symbol) : Token → Token
  | .symbol s => .symbol (f s)
  | .operator o => .operator o
  | .opening => .opening
  | .closing => .closing

/-- Rename the symbols of a program. -/
def Postfix.rename (f : Symbol → Symbol) (p : Postfix) : Postfix where
  tokens := p.tokens.map (Token.rename f)

variable (f : Symbol → Symbol)

namespace Pending

theorem map_rename_operators (ops : List Operator) :
    (ops.map Token.operator).map (Token.rename f) = ops.map .operator := by
  rw [List.map_map]
  rfl

/-- A step takes the same course for a renamed token. -/
theorem step_rename (stack : List Pending) (token : Token) :
    step stack (token.rename f) =
      ((step stack token).1.map (Token.rename f), (step stack token).2) := by
  cases token with
  | symbol s => rfl
  | opening => rfl
  | operator o => exact Prod.ext (map_rename_operators f _).symm rfl
  | closing => exact Prod.ext (map_rename_operators f _).symm rfl

theorem convert_rename (stack : List Pending) (tokens : List Token) :
    convert stack (tokens.map (Token.rename f)) =
      (convert stack tokens).map (Token.rename f) := by
  induction tokens generalizing stack with
  | nil => exact (map_rename_operators f _).symm
  | cons token rest ih =>
      show (step stack (token.rename f)).1 ++
        convert (step stack (token.rename f)).2 (rest.map (Token.rename f)) = _
      rw [step_rename, ih, ← List.map_append]
      rfl

end Pending

namespace Postfix

/-- Renaming before conversion is renaming after it. -/
theorem ofTokens_rename (tokens : List Token) :
    ofTokens (tokens.map (Token.rename f)) = (ofTokens tokens).rename f :=
  congrArg Postfix.mk (Pending.convert_rename f [] tokens)

theorem checkFrom_rename (height position : Nat) (tokens : List Token) :
    checkFrom height position (tokens.map (Token.rename f)) = checkFrom height position tokens := by
  induction tokens generalizing height position with
  | nil => rfl
  | cons token rest ih =>
      rw [List.map_cons]
      cases token with
      | symbol s => exact ih (height + 1) (position + 1)
      | operator o =>
          rw [Token.rename, checkFrom, checkFrom, ih]
      | opening => rfl
      | closing => rfl

theorem check_rename (p : Postfix) : (p.rename f).check = p.check :=
  checkFrom_rename f 0 0 p.tokens

variable {f} {v w : Valuation}

theorem evaluateFrom_rename {tokens : List Token}
    (hname : ∀ s, .symbol s ∈ tokens → (f s).name = s.name)
    (hvalue : ∀ s, .symbol s ∈ tokens → w (f s) = v s) (stack : List Bool) (position : Nat) :
    evaluateFrom w stack position (tokens.map (Token.rename f)) =
      evaluateFrom v stack position tokens := by
  induction tokens generalizing stack position with
  | nil => rcases stack with _ | ⟨_, _ | ⟨_, _⟩⟩ <;> rfl
  | cons token rest ih =>
      have hrest : ∀ stack position, evaluateFrom w stack position (rest.map (Token.rename f)) =
          evaluateFrom v stack position rest :=
        ih (fun s hs => hname s (List.mem_cons_of_mem _ hs))
          (fun s hs => hvalue s (List.mem_cons_of_mem _ hs))
      rw [List.map_cons]
      cases token with
      | symbol s =>
          have hmem : Token.symbol s ∈ Token.symbol s :: rest := List.mem_cons_self ..
          rw [Token.rename, evaluateFrom, evaluateFrom, hname s hmem, hvalue s hmem]
          simp only [hrest]
      | operator o =>
          rw [Token.rename, evaluateFrom, evaluateFrom]
          simp only [hrest]
      | opening => rw [Token.rename, evaluateFrom, evaluateFrom]
      | closing => rw [Token.rename, evaluateFrom, evaluateFrom]

/-- A renamed program has the value of the program, if the renamed symbols have the values of the symbols.
    The names have to stay, because one is named where there is no value. -/
theorem evaluate_rename {p : Postfix} (hname : ∀ s ∈ p.symbols, (f s).name = s.name)
    (hvalue : ∀ s ∈ p.symbols, w (f s) = v s) : (p.rename f).evaluate w = p.evaluate v :=
  evaluateFrom_rename (fun s hs => hname s (List.mem_filterMap.2 ⟨_, hs, rfl⟩))
    (fun s hs => hvalue s (List.mem_filterMap.2 ⟨_, hs, rfl⟩)) [] 0

end Postfix

end TruthTables
