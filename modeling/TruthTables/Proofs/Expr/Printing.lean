import TruthTables.Proofs.Expr.Text

set_option autoImplicit false

/-! # Reading printed trees

A printed tree is a formula text, and its tokens derive from the grammar with the tree that was printed
(`Expr.derivation`). Printing puts a `~` or a pair of parentheses in the text for each inner node, so the
signs that enclose a symbol in the text are as many as the nodes above it in the tree. Hence the printed form
is read back exactly up to a height, beyond which it is nested too deeply. This is also where reading and
printing part: a chain of one connective needs no parentheses to be read, however long it is, and one more
pair for each of its members to be printed. -/

namespace TruthTables

/-! ## Derivations of printed trees -/

namespace Derivation

/-- Something unary as the only operand of chains, up to the given level. -/
def ofUnary (d : Derivation .unary) : (L : Level) → Derivation L
  | .unary => d
  | .chain .and => .operand d
  | .chain .or => .operand (.operand d)
  | .chain .implies => .operand (.operand (.operand d))

/-- A chain as a whole formula. -/
def ofChain : {c : Connective} → Derivation (.chain c) → Derivation .formula
  | .implies, d => d
  | .or, d => .operand d
  | .and, d => .operand (.operand d)

section

variable (d : Derivation .unary) (L : Level)

@[simp]
theorem tokens_ofUnary : (d.ofUnary L).tokens = d.tokens := by
  rcases L with _ | (_ | _ | _) <;> rfl

@[simp]
theorem tree_ofUnary : (d.ofUnary L).tree = d.tree := by
  rcases L with _ | (_ | _ | _) <;> rfl

@[simp]
theorem nestings_ofUnary : (d.ofUnary L).nestings = d.nestings := by
  rcases L with _ | (_ | _ | _) <;> rfl

end

section

variable {c : Connective} (d : Derivation (.chain c))

@[simp]
theorem tokens_ofChain : d.ofChain.tokens = d.tokens := by
  cases c <;> rfl

@[simp]
theorem tree_ofChain : d.ofChain.tree = d.tree := by
  cases c <;> rfl

@[simp]
theorem nestings_ofChain : d.ofChain.nestings = d.nestings := by
  cases c <;> rfl

end

/-- A derivation has the same symbols in its tokens as in its tree. -/
theorem symbol_mem_tokens_iff {L : Level} (d : Derivation L) (s : Symbol) :
    .symbol s ∈ d.tokens ↔ s ∈ d.tree.symbols := by
  induction d with
  | symbol s' => simp [tokens, tree, Expr.symbols]
  | negation d ih => simp [tokens, tree, Expr.symbols, ih]
  | group d ih => simp [tokens, tree, ih]
  | operand d ih => exact ih
  | extend l r ihl ihr => simp [tokens, tree, Expr.symbols, ihl, ihr]

end Derivation

namespace Expr

/-- For each symbol of a tree from left to right, the number of negations and connectives above it. -/
def depths : Expr → List Nat
  | .var _ => [0]
  | .not e => e.depths.map (· + 1)
  | .binary _ l r => (l.depths ++ r.depths).map (· + 1)

/-- The derivation of a printed tree. -/
def derivation : Expr → Derivation .unary
  | .var s => .symbol s
  | .not e => .negation e.derivation
  | .binary c l r =>
    .group (Derivation.extend (c := c) (l.derivation.ofUnary _) (r.derivation.ofUnary _)).ofChain

theorem map_char_tokens_derivation (e : Expr) : e.derivation.tokens.map Token.char = e.print := by
  induction e with
  | var s => rfl
  | not e ih =>
      rw [derivation, Derivation.tokens, List.map_cons, ih]
      rfl
  | binary c l r ihl ihr =>
      simp [derivation, Derivation.tokens, print, ihl, ihr, Token.char, Operator.char]

@[simp]
theorem tree_derivation (e : Expr) : e.derivation.tree = e := by
  induction e with
  | var s => rfl
  | not e ih => rw [derivation, Derivation.tree, ih]
  | binary c l r ihl ihr => simp [derivation, Derivation.tree, ihl, ihr]

/-- What encloses a symbol in the text is what stands above it in the tree. -/
@[simp]
theorem nestings_derivation (e : Expr) : e.derivation.nestings = e.depths := by
  induction e with
  | var s => rfl
  | not e ih => rw [derivation, Derivation.nestings, ih, depths]
  | binary c l r ihl ihr => simp [derivation, Derivation.nestings, depths, ihl, ihr]

/-! ## Reading back -/

/-- The derivation of a printed tree as one of a whole formula. -/
def formula (e : Expr) : Derivation .formula :=
  e.derivation.ofUnary .formula

theorem derives_formula (e : Expr) : Derives e.formula.tokens e :=
  ⟨e.formula, rfl, by simp [formula]⟩

theorem fits_formula_iff (e : Expr) : e.formula.Fits 0 ↔ ∀ n ∈ e.depths, n ≤ nestingLimit := by
  simp [formula, Derivation.Fits]

/-- What is written like a printed tree is read as that tree, unless the tree is too high. -/
theorem ofText_of_writes_derivation {set : SymbolSet} {cs : List Char} {e : Expr}
    (hwrites : set.Writes cs e.derivation.tokens) (hdepths : ∀ n ∈ e.depths, n ≤ nestingLimit) :
    ofText set (String.ofList cs) = .ok e := by
  have htokens : set.Writes cs e.formula.tokens := by rwa [formula, Derivation.tokens_ofUnary]
  have htree : e.formula.tree = e := by simp [formula]
  rw [ofText_of_writes htokens (by simpa [formula] using hdepths), htree]

/-- The printed form of a tree over the declared symbols is taken apart into the tokens of its
    derivation. -/
theorem tokensOf_text {set : SymbolSet} {e : Expr} (h : ∀ s ∈ e.symbols, s ∈ set.symbols) :
    set.tokensOf e.text = .ok e.formula.tokens := by
  rw [formula, Derivation.tokens_ofUnary, text, ← map_char_tokens_derivation]
  refine (SymbolSet.writes_map_char ?_).tokensOf_eq
  intro s hs
  rw [Derivation.symbol_mem_tokens_iff, tree_derivation] at hs
  exact h s hs

/-- A printed tree that is too high is nested too deeply. -/
theorem ofText_text_eq_tooDeep {set : SymbolSet} {e : Expr} (h : ∀ s ∈ e.symbols, s ∈ set.symbols)
    (hdeep : ¬ ∀ n ∈ e.depths, n ≤ nestingLimit) :
    ofText set e.text = .error (.malformed e.text .tooDeep) := by
  rw [ofText_tokens e.formula (tokensOf_text h),
    ofTokens_eq_tooDeep e.formula fun hfits => hdeep (e.fits_formula_iff.1 hfits)]
  rfl

/-! ## Chains without parentheses -/

/-- A symbol joined with itself a number of times. -/
def repeated (s : Symbol) : Nat → Derivation (.chain .and)
  | 0 => .operand (.symbol s)
  | n + 1 => .extend (repeated s n) (.symbol s)

section

variable (s : Symbol) (n : Nat)

theorem opening_not_mem_tokens_repeated : .opening ∉ (repeated s n).tokens := by
  induction n with
  | zero => simp [repeated, Derivation.tokens]
  | succ n ih => simp [repeated, Derivation.tokens, ih]

/-- Nothing encloses a symbol of such a chain. -/
theorem nestings_repeated : ∀ k ∈ (repeated s n).nestings, k = 0 := by
  induction n with
  | zero => simp [repeated, Derivation.nestings]
  | succ n ih =>
      intro k hk
      rcases List.mem_append.1 hk with hk | hk
      · exact ih k hk
      · exact List.mem_singleton.1 hk

theorem symbols_repeated : ∀ s' ∈ (repeated s n).tree.symbols, s' = s := by
  induction n with
  | zero => simp [repeated, Derivation.tree, symbols]
  | succ n ih =>
      intro s' hs'
      rcases List.mem_append.1 hs' with hs' | hs'
      · exact ih s' hs'
      · exact List.mem_singleton.1 hs'

/-- The first symbol of such a chain stands below all its connectives. -/
theorem mem_depths_repeated : n ∈ (repeated s n).tree.depths := by
  induction n with
  | zero => simp [repeated, Derivation.tree, depths]
  | succ n ih => exact List.mem_map.2 ⟨n, List.mem_append_left _ ih, rfl⟩

end

section

variable {set : SymbolSet} {s : Symbol} (hs : s ∈ set.symbols)
include hs

theorem writes_repeated (n : Nat) :
    set.Writes ((repeated s n).tokens.map Token.char) (repeated s n).tokens := by
  refine SymbolSet.writes_map_char fun s' hs' => ?_
  rw [Derivation.symbol_mem_tokens_iff] at hs'
  rwa [symbols_repeated s n s' hs']

theorem tokensOf_repeated (n : Nat) :
    set.tokensOf (String.ofList ((repeated s n).tokens.map Token.char)) =
      .ok (repeated s n).tokens :=
  (writes_repeated hs n).tokensOf_eq

omit hs in
/-- Such a chain is read, however long it is and wherever there are blanks. -/
theorem ofText_of_writes_repeated {cs : List Char} {n : Nat}
    (hwrites : set.Writes cs (repeated s n).tokens) :
    ofText set (String.ofList cs) = .ok (repeated s n).tree := by
  rw [← Derivation.tokens_ofChain] at hwrites
  have hnested : ∀ k ∈ (repeated s n).ofChain.nestings, k ≤ nestingLimit := by
    intro k hk
    rw [Derivation.nestings_ofChain] at hk
    rw [nestings_repeated s n k hk]
    exact Nat.zero_le _
  rw [ofText_of_writes hwrites hnested, Derivation.tree_ofChain]

theorem ofText_repeated (n : Nat) :
    ofText set (String.ofList ((repeated s n).tokens.map Token.char)) =
      .ok (repeated s n).tree :=
  ofText_of_writes_repeated (writes_repeated hs n)

/-- What is printed for such a chain is not read, if the chain is longer than the limit. -/
theorem ofText_text_repeated {n : Nat} (hn : nestingLimit < n) :
    ofText set (repeated s n).tree.text =
      .error (.malformed (repeated s n).tree.text .tooDeep) := by
  apply ofText_text_eq_tooDeep
  · intro s' hs'
    rwa [symbols_repeated s n s' hs']
  · intro hle
    exact Nat.not_le_of_lt hn (hle n (mem_depths_repeated s n))

end

/-- A printed tree over the declared symbols, of whatever height, is a text in order and is converted to
    the listing of the tree. The parser reads the tree back if at most as many negations and connectives
    as the limit allows stand above each of its symbols, and otherwise finds it nested too deeply. Trees
    read from a text without parentheses can be that high, since a chain is printed with more of them than
    it needs. -/
theorem ofText_text_iff_depths_le (set : SymbolSet) :
    (∀ e : Expr, (∀ s ∈ e.symbols, s ∈ set.symbols) →
      set.checkText e.text = .ok () ∧
      Postfix.ofText set e.text = .ok ⟨e.postorder⟩ ∧
      ((∀ n ∈ e.depths, n ≤ nestingLimit) → ofText set e.text = .ok e) ∧
      ((∃ n ∈ e.depths, nestingLimit < n) →
        ofText set e.text = .error (.malformed e.text .tooDeep))) ∧
    ∃ text tokens e, set.tokensOf text = .ok tokens ∧ .opening ∉ tokens ∧
      (∀ s ∈ e.symbols, s ∈ set.symbols) ∧ ofText set text = .ok e ∧
      ofText set e.text = .error (.malformed e.text .tooDeep) := by
  constructor
  · intro e h
    have htokens := tokensOf_text h
    refine ⟨e.derives_formula.checkText_eq_ok htokens, ?_, ?_, ?_⟩
    · rw [Postfix.ofText_eq_ok_iff]
      exact ⟨e.formula.tokens, htokens, e.derives_formula.ofTokens_eq.symm⟩
    · intro hdepths
      have htree : e.formula.tree = e := by simp [formula]
      exact (ofText_eq_ok_iff e).2 ⟨e.formula, htokens, htree, e.fits_formula_iff.2 hdepths⟩
    · rintro ⟨n, hn, hlt⟩
      exact ofText_text_eq_tooDeep h fun hle => Nat.not_le_of_lt hlt (hle n hn)
  · obtain ⟨s, hs⟩ := List.exists_mem_of_length_pos (set.length_symbols ▸ set.size_pos)
    refine ⟨_, _, _, tokensOf_repeated hs (nestingLimit + 1), opening_not_mem_tokens_repeated s _, ?_,
      ofText_repeated hs _, ofText_text_repeated hs (Nat.lt_succ_self _)⟩
    intro s' hs'
    rwa [symbols_repeated s _ s' hs']

/-- A negated implication is printed with parentheses, and read back. -/
theorem ofText_text_of_negated_implication :
    let e : Expr := .not (.binary .implies (.var ⟨'p', 0⟩) (.var ⟨'q', 1⟩))
    e.text = "~(p>q)" ∧ ∃ set, SymbolSet.ofList ["p", "q"] = .ok set ∧
      Postfix.ofText set "~(p>q)" = .ok ⟨e.postorder⟩ ∧ ofText set "~(p>q)" = .ok e := by
  intro e
  have htext : e.text = "~(p>q)" := rfl
  have hread : ∀ set : SymbolSet, (∀ s ∈ e.symbols, s ∈ set.symbols) →
      Postfix.ofText set "~(p>q)" = .ok ⟨e.postorder⟩ ∧ ofText set "~(p>q)" = .ok e := by
    intro set hsymbols
    obtain ⟨-, hlisting, htree, -⟩ := (ofText_text_iff_depths_le set).1 e hsymbols
    rw [← htext]
    exact ⟨hlisting, htree (by decide)⟩
  refine ⟨htext, _, rfl, hread _ ?_⟩
  intro s hs
  have hpq : s = ⟨'p', 0⟩ ∨ s = ⟨'q', 1⟩ := by simpa [e, symbols] using hs
  rcases hpq with rfl | rfl
  · exact SymbolSet.mem_symbols_iff.2 rfl
  · exact SymbolSet.mem_symbols_iff.2 rfl

end Expr

end TruthTables
