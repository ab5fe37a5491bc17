import TruthTables.Formula.Text
import TruthTables.Postfix

set_option autoImplicit false

/-! # Conversion to postfix

Operators move behind their operands with the help of a stack of pending operators and open groups.
`Pending.step` says what one token does: which tokens it releases, and which stack it leaves. A symbol
is released at once. An operator first releases the pending operators that yield to it. A `)` releases
the operators of the innermost group and removes its `(`. At the end the stack is drained.

The conversion is total: a `)` without a group releases all that is pending, and a `(` that nothing
closes is dropped. Operators in wrong places stay in the result, for `Postfix.check` to find. -/

namespace TruthTables

/-- An entry of the stack: an operator that waits for its right operand, or an open group. -/
inductive Pending
  | operator (o : Operator)
  | group
  deriving DecidableEq, Repr

namespace Pending

/-- The operators on top of a stack that yield to an incoming one, and the stack below them. -/
def release (incoming : Operator) : List Pending → List Operator × List Pending
  | .operator waiting :: stack =>
    if waiting.yieldsTo incoming then
      let (released, rest) := release incoming stack
      (waiting :: released, rest)
    else ([], .operator waiting :: stack)
  | stack => ([], stack)

/-- The operators of the innermost group, and the stack below the group. -/
def close : List Pending → List Operator × List Pending
  | [] => ([], [])
  | .group :: stack => ([], stack)
  | .operator o :: stack =>
    let (released, rest) := close stack
    (o :: released, rest)

/-- All operators of a stack, from the top. -/
def drain (stack : List Pending) : List Operator :=
  stack.filterMap fun
    | .operator o => some o
    | .group => none

/-- The tokens that one token releases, and the stack it leaves. -/
def step (stack : List Pending) : Token → List Token × List Pending
  | .symbol s => ([.symbol s], stack)
  | .opening => ([], .group :: stack)
  | .closing =>
    let (released, rest) := close stack
    (released.map .operator, rest)
  | .operator o =>
    let (released, rest) := release o stack
    (released.map .operator, .operator o :: rest)

/-- The stack after some tokens. -/
def after (stack : List Pending) (tokens : List Token) : List Pending :=
  tokens.foldl (fun stack token => (step stack token).2) stack

/-- The tokens released by a sequence of tokens and by its end. -/
def convert : List Pending → List Token → List Token
  | stack, [] => (drain stack).map .operator
  | stack, token :: rest =>
    let (released, stack') := step stack token
    released ++ convert stack' rest

end Pending

/-- The postfix form of a formula given by its tokens. -/
def Postfix.ofTokens (tokens : List Token) : Postfix where
  tokens := Pending.convert [] tokens

/-- The postfix form of a formula text, of which only the characters are judged. -/
def Postfix.ofText (symbols : SymbolSet) (formula : String) : Except FormulaFault Postfix :=
  (symbols.tokensOf formula).map Postfix.ofTokens

theorem Postfix.ofText_eq_ok_iff {symbols : SymbolSet} {formula : String} {p : Postfix} :
    Postfix.ofText symbols formula = .ok p ↔
      ∃ tokens, symbols.tokensOf formula = .ok tokens ∧ p = Postfix.ofTokens tokens := by
  rw [ofText]
  cases symbols.tokensOf formula with
  | error fault => simp [Except.map]
  | ok tokens => simp [Except.map, eq_comm]

end TruthTables
