import TruthTables.Expr
import TruthTables.Formula.Text
import TruthTables.Rejection

set_option autoImplicit false

/-! # Reading trees

Tokens are read into a tree by recursive descent. A chain of operands joined by one connective groups
to the left; its operands are chains of the next tighter connective, and those of the tightest one are
unary: a symbol, a negation sign before something unary, or a whole formula between parentheses.

Each function returns the tree together with the tokens behind it. Where reading stops short, the
tokens that are left say at which token, so no function has to know positions. Nesting is counted by
`depth`, the number of negation signs and open parentheses around the place, and judged before the
next token is looked at. -/

namespace TruthTables

/-- Why reading a tree stops short. -/
inductive Obstacle
  /-- No formula goes on with the first of these tokens, or can end here if there are none. -/
  | unexpected (rest : List Token)
  /-- The place is nested too deeply. -/
  | tooDeep
  deriving DecidableEq, Repr

/-- The cause of an obstacle within `count` tokens: what is left gives the position. -/
def Obstacle.toMalformed (count : Nat) : Obstacle → Malformed
  | .unexpected [] => .unexpectedEnd
  | .unexpected (token :: rest) => .unexpectedToken token (count - (rest.length + 1))
  | .tooDeep => .tooDeep

/-- A tree and fewer tokens than there were. -/
abbrev ReadTree (tokens : List Token) :=
  Except Obstacle (Expr × { rest : List Token // rest.length < tokens.length })

/-- A tree and no more tokens than there were. -/
abbrev ExtendedTree (tokens : List Token) :=
  Except Obstacle (Expr × { rest : List Token // rest.length ≤ tokens.length })

namespace Expr

/-- Read the `)` of a group. -/
def readClosing (tokens : List Token) :
    Except Obstacle { rest : List Token // rest.length < tokens.length } :=
  match tokens with
  | .closing :: rest => .ok ⟨rest, Nat.lt_succ_self _⟩
  | rest => .error (.unexpected rest)

mutual

/-- Read something unary. -/
def readUnary (depth : Nat) (tokens : List Token) : ReadTree tokens :=
  if nestingLimit < depth then .error .tooDeep
  else match tokens with
    | .symbol s :: rest => .ok (.var s, ⟨rest, Nat.lt_succ_self _⟩)
    | .operator .not :: rest =>
      match readUnary (depth + 1) rest with
      | .error obstacle => .error obstacle
      | .ok (e, ⟨rest', h⟩) => .ok (.not e, ⟨rest', Nat.lt_succ_of_lt h⟩)
    | .opening :: rest =>
      match readChain .implies (depth + 1) rest with
      | .error obstacle => .error obstacle
      | .ok (e, ⟨rest', h⟩) =>
        match readClosing rest' with
        | .error obstacle => .error obstacle
        | .ok ⟨rest'', h'⟩ => .ok (e, ⟨rest'', Nat.lt_succ_of_lt (Nat.lt_trans h' h)⟩)
    | rest => .error (.unexpected rest)
termination_by 8 * tokens.length

/-- Read an operand of a connective. -/
def readOperand (c : Connective) (depth : Nat) (tokens : List Token) : ReadTree tokens :=
  match _h : c.tighter with
  | some d => readChain d depth tokens
  | none => readUnary depth tokens
termination_by 8 * tokens.length + (6 - 2 * c.rank)
decreasing_by
  · have := Connective.rank_tighter _h
    have : d.rank ≤ 2 := by cases d <;> decide
    omega
  · cases c <;> simp [Connective.rank]

/-- Read a chain of operands joined by one connective. -/
def readChain (c : Connective) (depth : Nat) (tokens : List Token) : ReadTree tokens :=
  match readOperand c depth tokens with
  | .error obstacle => .error obstacle
  | .ok (left, ⟨rest, h⟩) =>
    match extendChain c depth left rest with
    | .error obstacle => .error obstacle
    | .ok (e, ⟨rest', h'⟩) => .ok (e, ⟨rest', Nat.lt_of_le_of_lt h' h⟩)
termination_by 8 * tokens.length + (7 - 2 * c.rank)
decreasing_by
  · have : c.rank ≤ 2 := by cases c <;> decide
    omega
  · have : c.rank ≤ 2 := by cases c <;> decide
    omega

/-- Go on with a chain of which `left` is read already. -/
def extendChain (c : Connective) (depth : Nat) (left : Expr) (tokens : List Token) :
    ExtendedTree tokens :=
  match tokens with
  | .operator (.binary d) :: rest =>
    if d = c then
      match readOperand c depth rest with
      | .error obstacle => .error obstacle
      | .ok (right, ⟨rest', h⟩) =>
        match extendChain c depth (.binary c left right) rest' with
        | .error obstacle => .error obstacle
        | .ok (e, ⟨rest'', h'⟩) =>
          .ok (e, ⟨rest'', Nat.le_succ_of_le (Nat.le_of_lt (Nat.lt_of_le_of_lt h' h))⟩)
    else .ok (left, ⟨.operator (.binary d) :: rest, Nat.le_refl _⟩)
  | rest => .ok (left, ⟨rest, Nat.le_refl _⟩)
termination_by 8 * tokens.length

end

/-- Read all tokens into one tree. -/
def ofTokens (tokens : List Token) : Except Malformed Expr :=
  match readChain .implies 0 tokens with
  | .error obstacle => .error (obstacle.toMalformed tokens.length)
  | .ok (e, ⟨rest, _⟩) =>
    if rest.isEmpty then .ok e
    else .error ((Obstacle.unexpected rest).toMalformed tokens.length)

/-- Read a formula text into a tree over a symbol set. -/
def ofText (symbols : SymbolSet) (formula : String) : Except Rejection Expr :=
  match symbols.checkText formula with
  | .error fault => .error (.text formula fault)
  | .ok () =>
    match symbols.tokensOf formula with
    | .error fault => .error (.text formula fault)
    | .ok tokens => (ofTokens tokens).mapError (.malformed formula)

end Expr

end TruthTables
