import TruthTables.Expr

set_option autoImplicit false

/-! # The grammar of formulas

The grammar is stratified. Something unary is a symbol, a negation sign before something unary, or a
whole formula between parentheses. A chain of a connective is an operand of it, or a shorter chain, the
connective and one more operand, so chains group to the left. The operands of a connective are the
chains of the next tighter one, and those of the tightest one are unary. A formula is a chain of `>`.

Nothing here knows how tokens are read. A `Derivation` is a proof tree of the grammar; the tokens it
derives, the expression tree it stands for and the nesting of its symbols are three functions on it.
There is no limit on nesting, and parentheses leave no trace in the expression tree. -/

namespace TruthTables

/-! ## Levels -/

/-- The nonterminals of the grammar. -/
inductive Level
  | unary
  | chain (c : Connective)
  deriving DecidableEq, Repr

namespace Level

/-- The level of the operands of a connective. -/
def operand (c : Connective) : Level :=
  match c.tighter with
  | some d => .chain d
  | none => .unary

/-- The level of whole formulas. -/
abbrev formula : Level := .chain .implies

/-- How tightly the loosest operator binds that a level leaves open on its right. -/
def rank : Level → Nat
  | .unary => Operator.not.rank
  | .chain c => c.rank

@[simp]
theorem rank_operand (c : Connective) : (operand c).rank = c.rank + 1 := by
  cases c <;> rfl

/-- Induction over what is read at a level: something unary is made of shorter parts, a chain of an
    operand at its beginning and of shorter parts. -/
theorem induction_on_tokens {P : Level → List Token → Prop}
    (unary : ∀ tokens, (∀ L tokens', tokens'.length < tokens.length → P L tokens') →
      P .unary tokens)
    (chain : ∀ c tokens, P (operand c) tokens →
      (∀ L tokens', tokens'.length < tokens.length → P L tokens') → P (.chain c) tokens)
    (L : Level) (tokens : List Token) : P L tokens := by
  induction hn : tokens.length using Nat.strongRecOn generalizing L tokens with
  | ind n ih =>
      have shorter : ∀ L tokens', tokens'.length < tokens.length → P L tokens' :=
        fun L tokens' h => ih _ (hn ▸ h) L tokens' rfl
      have hunary : P .unary tokens := unary tokens shorter
      have hand : P (.chain .and) tokens := chain .and tokens hunary shorter
      have hor : P (.chain .or) tokens := chain .or tokens hand shorter
      have himplies : P (.chain .implies) tokens := chain .implies tokens hor shorter
      cases L with
      | unary => exact hunary
      | chain c => cases c <;> assumption

end Level

/-- The tokens do not begin with a connective of the given rank or a higher one. -/
def LooserThan (rank : Nat) : List Token → Prop
  | .operator (.binary c) :: _ => c.rank < rank
  | _ => True

namespace LooserThan

theorem mono {m n : Nat} {tokens : List Token} (h : LooserThan m tokens) (hmn : m ≤ n) :
    LooserThan n tokens := by
  unfold LooserThan at h ⊢
  split
  · exact Nat.lt_of_lt_of_le h hmn
  · trivial

/-- Every connective binds less tightly than the negation sign. -/
theorem unary (tokens : List Token) : LooserThan Level.unary.rank tokens := by
  unfold LooserThan
  split
  · next c rest => cases c <;> decide
  · trivial

/-- What does not make a chain longer does not go on with its last operand. -/
theorem operand_of_chain {c : Connective} {tokens : List Token}
    (h : LooserThan ((Level.chain c).rank + 1) tokens) :
    LooserThan (Level.operand c).rank tokens := by
  rw [Level.rank_operand]
  exact h

/-- Behind an operand of a connective, a chain either ends or goes on with that connective. -/
theorem of_operand {c : Connective} {tokens : List Token}
    (h : LooserThan (Level.operand c).rank tokens) :
    LooserThan c.rank tokens ∨ ∃ rest, tokens = .operator (.binary c) :: rest := by
  rw [Level.rank_operand] at h
  unfold LooserThan at h ⊢
  split
  · next d rest =>
      rcases Nat.lt_or_eq_of_le (Nat.le_of_lt_succ h) with hlt | heq
      · exact Or.inl hlt
      · exact Or.inr ⟨rest, by rw [Connective.rank_inj heq]⟩
  · exact Or.inl trivial

end LooserThan

/-! ## Derivations -/

/-- The proof trees of the grammar. -/
inductive Derivation : Level → Type
  | symbol (s : Symbol) : Derivation .unary
  | negation (d : Derivation .unary) : Derivation .unary
  | group (d : Derivation .formula) : Derivation .unary
  | operand {c : Connective} (d : Derivation (.operand c)) : Derivation (.chain c)
  | extend {c : Connective} (l : Derivation (.chain c)) (r : Derivation (.operand c)) :
      Derivation (.chain c)

namespace Derivation

/-- The tokens that are derived. -/
def tokens : {L : Level} → Derivation L → List Token
  | _, symbol s => [.symbol s]
  | _, negation d => .operator .not :: d.tokens
  | _, group d => .opening :: d.tokens ++ [.closing]
  | _, operand d => d.tokens
  | _, extend (c := c) l r => l.tokens ++ .operator (.binary c) :: r.tokens

/-- The expression tree that is derived. -/
def tree : {L : Level} → Derivation L → Expr
  | _, symbol s => .var s
  | _, negation d => .not d.tree
  | _, group d => d.tree
  | _, operand d => d.tree
  | _, extend (c := c) l r => .binary c l.tree r.tree

/-- For each occurrence of a symbol, from left to right, the number of negation signs and parentheses
    that enclose it. -/
def nestings : {L : Level} → Derivation L → List Nat
  | _, symbol _ => [0]
  | _, negation d => d.nestings.map (· + 1)
  | _, group d => d.nestings.map (· + 1)
  | _, operand d => d.nestings
  | _, extend l r => l.nestings ++ r.nestings

theorem nestings_ne_nil {L : Level} (d : Derivation L) : d.nestings ≠ [] := by
  induction d with
  | symbol s => simp [nestings]
  | negation d ih => simpa [nestings] using ih
  | group d ih => simpa [nestings] using ih
  | operand d ih => exact ih
  | extend l r ihl _ => simp [nestings, ihl]

/-! ## The limit on nesting -/

/-- With `depth` enclosing signs around the whole, no symbol is nested beyond the limit. -/
def Fits {L : Level} (depth : Nat) (d : Derivation L) : Prop :=
  ∀ n ∈ d.nestings, depth + n ≤ nestingLimit

theorem Fits.depth_le {L : Level} {depth : Nat} {d : Derivation L} (h : d.Fits depth) :
    depth ≤ nestingLimit := by
  obtain ⟨n, hn⟩ := List.exists_mem_of_ne_nil _ d.nestings_ne_nil
  exact Nat.le_of_add_right_le (h n hn)

theorem fits_symbol_iff (s : Symbol) (depth : Nat) :
    (symbol s).Fits depth ↔ depth ≤ nestingLimit := by
  simp [Fits, nestings]

theorem forall_nested_iff (depth : Nat) (ns : List Nat) :
    (∀ n ∈ ns.map (· + 1), depth + n ≤ nestingLimit) ↔
      ∀ n ∈ ns, depth + 1 + n ≤ nestingLimit := by
  simp [Nat.add_assoc, Nat.add_comm 1]

theorem fits_negation_iff (d : Derivation .unary) (depth : Nat) :
    (negation d).Fits depth ↔ d.Fits (depth + 1) :=
  forall_nested_iff depth d.nestings

theorem fits_group_iff (d : Derivation .formula) (depth : Nat) :
    (group d).Fits depth ↔ d.Fits (depth + 1) :=
  forall_nested_iff depth d.nestings

theorem fits_extend_iff {c : Connective} (l : Derivation (.chain c)) (r : Derivation (.operand c))
    (depth : Nat) : (extend l r).Fits depth ↔ l.Fits depth ∧ r.Fits depth := by
  simp only [Fits, nestings, List.mem_append, or_imp, forall_and]

end Derivation

/-- Whether a token encloses what follows it. -/
def Token.encloses : Token → Bool
  | .operator .not | .opening => true
  | .symbol _ | .operator (.binary _) | .closing => false

/-- No symbol is nested more deeply than there are enclosing tokens. -/
theorem Derivation.le_countP_encloses {L : Level} (d : Derivation L) :
    ∀ n ∈ d.nestings, n ≤ d.tokens.countP Token.encloses := by
  induction d with
  | symbol s => simp [nestings]
  | negation d ih =>
      intro n hn
      obtain ⟨m, hm, rfl⟩ := List.mem_map.1 hn
      rw [tokens, List.countP_cons_of_pos rfl]
      exact Nat.succ_le_succ (ih m hm)
  | group d ih =>
      intro n hn
      obtain ⟨m, hm, rfl⟩ := List.mem_map.1 hn
      rw [tokens, List.cons_append, List.countP_cons_of_pos rfl, List.countP_append]
      exact Nat.succ_le_succ (Nat.le_add_right_of_le (ih m hm))
  | operand d ih => exact ih
  | extend l r ihl ihr =>
      intro n hn
      rw [tokens, List.countP_append, List.countP_cons_of_neg Bool.false_ne_true]
      rcases List.mem_append.1 hn with hn | hn
      · exact Nat.le_add_right_of_le (ihl n hn)
      · exact Nat.le_add_left_of_le (ihr n hn)

/-- The tokens derive from the grammar with the given tree. -/
def Derives (tokens : List Token) (e : Expr) : Prop :=
  ∃ d : Derivation .formula, d.tokens = tokens ∧ d.tree = e

end TruthTables
