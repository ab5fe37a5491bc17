import TruthTables.Proofs.Grammar.Derivation

set_option autoImplicit false

/-! # Alternating tokens

Whether tokens derive from the grammar can be told without building a tree, by two walks from left to
right. `Place.next` keeps whether an operand or an operator has to come next, `nest` counts the open
groups. `exists_derives_iff` says that a sequence derives exactly when it alternates and is balanced.

Both walks are folds in `Option`, which fail at the first token that does not fit, so a walk over two
sequences one behind the other is two walks. -/

namespace TruthTables

/-! ## The two walks -/

/-- What has to come next in a formula. -/
inductive Place
  | operand
  | operator
  deriving DecidableEq, Repr

/-- The place behind a token, if the token can stand at this place. -/
def Place.next : Place → Token → Option Place
  | .operand, .symbol _ => some .operator
  | .operand, .operator .not => some .operand
  | .operand, .opening => some .operand
  | .operator, .operator (.binary _) => some .operand
  | .operator, .closing => some .operator
  | _, _ => none

/-- The number of open groups behind a token, if there is a group to close for a `)`. -/
def nest : Nat → Token → Option Nat
  | n, .opening => some (n + 1)
  | n + 1, .closing => some n
  | 0, .closing => none
  | n, .symbol _ => some n
  | n, .operator _ => some n

theorem nest_symbol (n : Nat) (s : Symbol) : nest n (.symbol s) = some n := by
  cases n <;> rfl

theorem nest_operator (n : Nat) (o : Operator) : nest n (.operator o) = some n := by
  cases n <;> rfl

theorem nest_closing_eq_some_iff {n m : Nat} : nest n .closing = some m ↔ n = m + 1 := by
  cases n <;> simp [nest]

/-- Operands and operators take turns, beginning and ending with an operand. -/
def Alternates (tokens : List Token) : Prop :=
  tokens.foldlM Place.next .operand = some .operator

/-- An operand can begin with the first token. -/
def Begins : List Token → Prop
  | [] => False
  | t :: _ => ∃ place, Place.next .operand t = some place

/-- No `)` comes without a group to close, and every group is closed. -/
def Balanced (tokens : List Token) : Prop :=
  tokens.foldlM nest 0 = some 0

instance (tokens : List Token) : Decidable (Alternates tokens) :=
  inferInstanceAs (Decidable (_ = _))

instance (tokens : List Token) : Decidable (Balanced tokens) :=
  inferInstanceAs (Decidable (_ = _))

theorem Alternates.begins {tokens : List Token} (h : Alternates tokens) : Begins tokens := by
  cases tokens with
  | nil => exact absurd h (by decide)
  | cons t rest =>
      rw [Alternates, List.foldlM_cons] at h
      obtain ⟨place, hplace, -⟩ := Option.bind_eq_some_iff.1 h
      exact ⟨place, hplace⟩

/-! ## Balanced tokens -/

/-- Tokens in parentheses. -/
def grouped (tokens : List Token) : List Token :=
  .opening :: tokens ++ [.closing]

/-- With more groups open, as many more are open behind a token. -/
theorem nest_add {n m : Nat} {t : Token} (h : nest n t = some m) (k : Nat) :
    nest (n + k) t = some (m + k) := by
  cases t with
  | symbol s =>
      rw [nest_symbol] at h ⊢
      rw [Option.some.inj h]
  | operator o =>
      rw [nest_operator] at h ⊢
      rw [Option.some.inj h]
  | opening =>
      rw [← Option.some.inj h]
      exact congrArg some (Nat.add_right_comm n k 1)
  | closing =>
      rw [nest_closing_eq_some_iff] at h ⊢
      rw [h, Nat.add_right_comm]

theorem foldlM_nest_add {n m : Nat} {tokens : List Token} (h : tokens.foldlM nest n = some m)
    (k : Nat) : tokens.foldlM nest (n + k) = some (m + k) := by
  induction tokens generalizing n with
  | nil =>
      rw [Option.some.inj h]
      rfl
  | cons t rest ih =>
      rw [List.foldlM_cons] at h ⊢
      obtain ⟨n', ht, hrest⟩ := Option.bind_eq_some_iff.1 h
      rw [nest_add ht k]
      exact ih hrest

namespace Balanced

variable {tokens tokens' : List Token}

theorem append (h : Balanced tokens) (h' : Balanced tokens') : Balanced (tokens ++ tokens') := by
  rw [Balanced, List.foldlM_append, h]
  exact h'

theorem operator_cons (h : Balanced tokens) (o : Operator) : Balanced (.operator o :: tokens) :=
  h

theorem group (h : Balanced tokens) : Balanced (grouped tokens) := by
  have hinner : tokens.foldlM nest 1 = some 1 := foldlM_nest_add h 1
  show (tokens ++ [Token.closing]).foldlM nest 1 = some 0
  rw [List.foldlM_append, hinner]
  rfl

end Balanced

/-! ## Derived tokens alternate and are balanced -/

namespace Derivation

theorem foldlM_next_tokens {L : Level} (d : Derivation L) :
    d.tokens.foldlM Place.next .operand = some .operator := by
  induction d with
  | symbol s => rfl
  | negation d ih => exact ih
  | group d ih =>
      rw [tokens, List.cons_append, List.foldlM_cons]
      show (d.tokens ++ [Token.closing]).foldlM Place.next .operand = some .operator
      rw [List.foldlM_append, ih]
      rfl
  | operand d ih => exact ih
  | extend l r ihl ihr =>
      rw [tokens, List.foldlM_append, ihl]
      exact ihr

theorem foldlM_nest_tokens {L : Level} (d : Derivation L) (n : Nat) :
    d.tokens.foldlM nest n = some n := by
  induction d generalizing n with
  | symbol s => cases n <;> rfl
  -- `nest` looks at the count before it looks at the token
  | negation d ih => cases n <;> exact ih _
  | group d ih =>
      rw [tokens, List.cons_append, List.foldlM_cons]
      show (d.tokens ++ [Token.closing]).foldlM nest (n + 1) = some n
      rw [List.foldlM_append, ih]
      rfl
  | operand d ih => exact ih n
  | extend l r ihl ihr =>
      rw [tokens, List.foldlM_append, ihl]
      cases n <;> exact ihr _

end Derivation

/-! ## Alternating and balanced tokens are derived -/

/-- From this place on and with this many groups open, the tokens end as a formula does. -/
def Completes (place : Place) (n : Nat) (tokens : List Token) : Prop :=
  tokens.foldlM Place.next place = some .operator ∧ tokens.foldlM nest n = some 0

/-- What is derived leaves an operator to come and as many groups open as before. -/
theorem Completes.of_append {L : Level} {d : Derivation L} {rest : List Token} {n : Nat}
    (h : Completes .operand n (d.tokens ++ rest)) : Completes .operator n rest := by
  obtain ⟨hnext, hnest⟩ := h
  rw [List.foldlM_append, d.foldlM_next_tokens] at hnext
  rw [List.foldlM_append, d.foldlM_nest_tokens] at hnest
  exact ⟨hnext, hnest⟩

/-- Where a whole formula stops, the tokens end with no group open, or a group is closed: every
    connective would have been part of the formula. -/
theorem Completes.behind_formula {n : Nat} {rest : List Token} (h : Completes .operator n rest)
    (hloose : LooserThan Level.formula.rank rest) :
    (n = 0 ∧ rest = []) ∨ ∃ m rest', n = m + 1 ∧ rest = .closing :: rest' := by
  obtain ⟨hnext, hnest⟩ := h
  cases rest with
  | nil => exact Or.inl ⟨Option.some.inj hnest, rfl⟩
  | cons token rest =>
    cases token with
    | symbol s => exact absurd hnext (by simp [Place.next])
    | opening => exact absurd hnext (by simp [Place.next])
    | operator o =>
        cases o with
        | not => exact absurd hnext (by simp [Place.next])
        | binary c => exact absurd hloose (Nat.not_lt_zero c.rank)
    | closing =>
        cases n with
        | zero => exact absurd hnest (by simp [nest])
        | succ m => exact Or.inr ⟨m, rest, rfl, rfl⟩

/-- A chain can be extended as long as its connective comes next. -/
theorem exists_chain_append {c : Connective} {n : Nat} (d : Derivation (.chain c))
    (rest : List Token) (hrest : Completes .operator n rest)
    (hloose : LooserThan (Level.operand c).rank rest)
    (operand : ∀ tokens, tokens.length < rest.length → Completes .operand n tokens →
      ∃ (r : Derivation (.operand c)) (rest' : List Token),
        tokens = r.tokens ++ rest' ∧ LooserThan (Level.operand c).rank rest') :
    ∃ (d' : Derivation (.chain c)) (rest' : List Token),
      d.tokens ++ rest = d'.tokens ++ rest' ∧ LooserThan c.rank rest' := by
  -- on the number of tokens behind the chain, since the chain itself grows
  induction hlen : rest.length using Nat.strongRecOn generalizing d rest with
  | ind k ih =>
      rcases hloose.of_operand with hend | ⟨tokens, rfl⟩
      · exact ⟨d, rest, rfl, hend⟩
      · have htokens : Completes .operand n tokens := by
          obtain ⟨hnext, hnest⟩ := hrest
          exact ⟨hnext, by cases n <;> exact hnest⟩
        obtain ⟨r, rest', rfl, hloose'⟩ := operand tokens (by simp) htokens
        have hlt : rest'.length < k := by
          rw [← hlen, List.length_cons, List.length_append]
          omega
        obtain ⟨d', rest'', heq, hend⟩ := ih rest'.length hlt (.extend d r) rest'
          htokens.of_append hloose' (fun tokens h => operand tokens (by
            rw [List.length_cons, List.length_append]
            omega)) rfl
        refine ⟨d', rest'', ?_, hend⟩
        rw [← heq, Derivation.tokens, List.append_assoc, List.cons_append]

/-- Tokens that complete a formula begin with a derivation at every level. -/
theorem exists_derivation_append (L : Level) (tokens : List Token) :
    ∀ n, Completes .operand n tokens → ∃ (d : Derivation L) (rest : List Token),
      tokens = d.tokens ++ rest ∧ LooserThan L.rank rest := by
  induction L, tokens using Level.induction_on_tokens with
  | unary tokens ih =>
      intro n ⟨hnext, hnest⟩
      cases tokens with
      | nil => exact absurd hnext (by decide)
      | cons token tokens =>
        cases token with
        | symbol s => exact ⟨.symbol s, tokens, rfl, .unary tokens⟩
        | closing => exact absurd hnext (by simp [Place.next])
        | operator o =>
            cases o with
            | binary c => exact absurd hnext (by simp [Place.next])
            | not =>
                obtain ⟨d, rest, rfl, hloose⟩ := ih .unary tokens (by simp) n
                  ⟨hnext, by cases n <;> exact hnest⟩
                exact ⟨.negation d, rest, rfl, hloose⟩
        | opening =>
            have hinner : Completes .operand (n + 1) tokens := ⟨hnext, hnest⟩
            obtain ⟨d, rest, rfl, hloose⟩ := ih .formula tokens (by simp) (n + 1) hinner
            rcases hinner.of_append.behind_formula hloose with ⟨hn, -⟩ | ⟨_, rest', -, rfl⟩
            · -- the tokens cannot end while this group is open
              exact absurd hn (Nat.succ_ne_zero n)
            · exact ⟨.group d, rest', by simp [Derivation.tokens], .unary rest'⟩
  | chain c tokens operand ih =>
      intro n h
      obtain ⟨d, rest, rfl, hloose⟩ := operand n h
      exact exists_chain_append (.operand d) rest h.of_append hloose
        (fun tokens' hlen => ih (.operand c) tokens' (by rw [List.length_append]; omega) n)

/-- A sequence of tokens is a formula exactly when it alternates and is balanced. -/
theorem exists_derives_iff (tokens : List Token) :
    (∃ e, Derives tokens e) ↔ Alternates tokens ∧ Balanced tokens := by
  constructor
  · rintro ⟨e, d, rfl, -⟩
    exact ⟨d.foldlM_next_tokens, d.foldlM_nest_tokens 0⟩
  · rintro ⟨hnext, hnest⟩
    obtain ⟨d, rest, rfl, hloose⟩ := exists_derivation_append .formula tokens 0 ⟨hnext, hnest⟩
    have hrest : Completes .operator 0 rest := Completes.of_append ⟨hnext, hnest⟩
    rcases hrest.behind_formula hloose with ⟨-, rfl⟩ | ⟨m, rest', hm, -⟩
    · exact ⟨d.tree, d, (List.append_nil _).symm, rfl⟩
    · exact absurd hm.symm (Nat.succ_ne_zero m)

end TruthTables
