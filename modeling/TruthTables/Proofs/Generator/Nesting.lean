import Mathlib.Algebra.Ring.Nat
import TruthTables.Proofs.Expr.Printing
import TruthTables.Proofs.Generator.Lines

set_option autoImplicit false

/-! # Nesting of generated formulas

The generator counts its steps of construction. What the parser builds can be nested more deeply, because
pieces without parentheses are grouped anew when they are put together: from `p ^ p` on both sides of a `^`
comes a chain that leans to the left. Only the number of operators is kept by all regrouping. Each step
doubles it at most, so a formula of `depth` steps has less than `2 ^ depth` operators and no more of them
are nested (`Derivation.nesting_le_countP`). This is as much as there is: if no parentheses are ever drawn, the
chain with the most operators comes out. With parentheses around every joined formula a line is written
like a printed tree and is nested as deeply as there are steps. -/

namespace TruthTables

/-! ## Nested operators -/

/-- Whether a token is an operator. -/
def Token.isOperator : Token → Bool
  | .operator _ => true
  | .symbol _ | .opening | .closing => false

namespace Expr

/-- How deeply negations and connectives are nested in a tree. -/
def nesting : Expr → Nat
  | .var _ => 0
  | .not e => e.nesting + 1
  | .binary _ l r => max l.nesting r.nesting + 1

/-- No symbol stands below more of them. -/
theorem le_nesting_of_mem_depths {e : Expr} {n : Nat} (h : n ∈ e.depths) : n ≤ e.nesting := by
  induction e generalizing n with
  | var s =>
      cases List.mem_singleton.1 h
      exact Nat.le_refl _
  | not e ih =>
      obtain ⟨m, hm, rfl⟩ := List.mem_map.1 h
      exact Nat.succ_le_succ (ih hm)
  | binary c l r ihl ihr =>
      obtain ⟨m, hm, rfl⟩ := List.mem_map.1 h
      apply Nat.succ_le_succ
      rcases List.mem_append.1 hm with hm | hm
      · exact Nat.le_trans (ihl hm) (Nat.le_max_left ..)
      · exact Nat.le_trans (ihr hm) (Nat.le_max_right ..)

theorem nesting_repeated (s : Symbol) (n : Nat) : (repeated s n).tree.nesting = n := by
  induction n with
  | zero => rfl
  | succ n ih =>
      show max (repeated s n).tree.nesting 0 + 1 = n + 1
      rw [ih, Nat.max_zero]

/-- Two chains with one more connective between them are one chain. -/
theorem tokens_repeated_append (s : Symbol) (m n : Nat) :
    (repeated s m).tokens ++ .operator (.binary .and) :: (repeated s n).tokens =
      (repeated s (m + n + 1)).tokens := by
  induction n with
  | zero => rfl
  | succ n ih =>
      show (repeated s m).tokens ++ .operator (.binary .and) ::
        ((repeated s n).tokens ++ [.operator (.binary .and), .symbol s]) = _
      rw [← List.cons_append, ← List.append_assoc, ih]
      rfl

end Expr

/-- A tree is nested at most as deeply as there are operators in the tokens it is read from. -/
theorem Derivation.nesting_le_countP {L : Level} (d : Derivation L) :
    d.tree.nesting ≤ d.tokens.countP Token.isOperator := by
  induction d with
  | symbol s => exact Nat.zero_le _
  | negation d ih =>
      rw [tokens, List.countP_cons_of_pos rfl]
      exact Nat.succ_le_succ ih
  | group d ih =>
      rw [tokens, List.cons_append, List.countP_cons_of_neg Bool.false_ne_true, List.countP_append]
      exact Nat.le_add_right_of_le ih
  | operand d ih => exact ih
  | extend l r ihl ihr =>
      rw [tokens, List.countP_append, List.countP_cons_of_pos rfl]
      exact Nat.succ_le_succ (Nat.max_le.2 ⟨Nat.le_add_right_of_le ihl, Nat.le_add_left_of_le ihr⟩)

namespace Generator

/-! ## Counting operators -/

/-- A line with the tokens of a formula, with less than `2 ^ depth` operators. -/
def FewOperators (set : SymbolSet) (depth : Nat) (line : List Char) : Prop :=
  ∃ tokens, set.Writes line tokens ∧ DerivesWithin .formula depth tokens ∧
    tokens.countP Token.isOperator < 2 ^ depth

namespace FewOperators

variable {set : SymbolSet} {depth : Nat} {line left right : List Char}

theorem symbol {c : Char} (hc : c ∈ set.names) : FewOperators set depth [c] := by
  obtain ⟨s, hwrites⟩ := exists_writes_symbol hc
  exact ⟨_, hwrites, .symbol s, Nat.two_pow_pos depth⟩

theorem negation (h : FewOperators set depth line) :
    FewOperators set (depth + 1) ('~' :: line) := by
  obtain ⟨tokens, hwrites, hderives, hcount⟩ := h
  refine ⟨_, writes_negation hwrites, hderives.negation, ?_⟩
  rw [List.countP_cons_of_pos rfl, Nat.pow_succ]
  omega

theorem joined (grouped : Bool) (c : Connective) (hl : FewOperators set depth left)
    (hr : FewOperators set depth right) :
    FewOperators set (depth + 1) (Generator.joined grouped c left right) := by
  obtain ⟨tokens, hwrites, hderives, hcount⟩ := hl
  obtain ⟨tokens', hwrites', hderives', hcount'⟩ := hr
  have hsum : (tokens ++ .operator (.binary c) :: tokens').countP Token.isOperator <
      2 ^ (depth + 1) := by
    rw [List.countP_append, List.countP_cons_of_pos rfl, Nat.pow_succ]
    omega
  have hopen := writes_joined c hwrites hwrites'
  have hjoin := hderives.join (c := c) hderives'
  cases grouped with
  | false => exact ⟨_, hopen, hjoin.mono (Nat.le_succ depth), hsum⟩
  | true =>
      refine ⟨_, writes_group hopen, hjoin.group, ?_⟩
      rwa [List.cons_append, List.countP_cons_of_neg Bool.false_ne_true, List.countP_append,
        List.countP_singleton]

end FewOperators

/-! ## Parentheses around every joined formula -/

/-- A line that is written like a tree that is nested at most `depth` deep. -/
def LikePrinted (set : SymbolSet) (depth : Nat) (line : List Char) : Prop :=
  ∃ e : Expr, set.Writes line e.derivation.tokens ∧ e.nesting ≤ depth

namespace LikePrinted

variable {set : SymbolSet} {depth : Nat} {line left right : List Char}

theorem symbol {c : Char} (hc : c ∈ set.names) : LikePrinted set depth [c] := by
  obtain ⟨s, hwrites⟩ := exists_writes_symbol hc
  exact ⟨.var s, hwrites, Nat.zero_le depth⟩

theorem negation (h : LikePrinted set depth line) : LikePrinted set (depth + 1) ('~' :: line) := by
  obtain ⟨e, hwrites, hnesting⟩ := h
  exact ⟨.not e, writes_negation hwrites, Nat.succ_le_succ hnesting⟩

theorem joined (c : Connective) (hl : LikePrinted set depth left) (hr : LikePrinted set depth right) :
    LikePrinted set (depth + 1) (Generator.joined true c left right) := by
  obtain ⟨l, hwrites, hl⟩ := hl
  obtain ⟨r, hwrites', hr⟩ := hr
  refine ⟨.binary c l r, ?_, Nat.succ_le_succ (Nat.max_le.2 ⟨hl, hr⟩)⟩
  have htokens : (Expr.binary c l r).derivation.tokens =
      .opening :: (l.derivation.tokens ++ .operator (.binary c) :: r.derivation.tokens) ++
        [.closing] := by
    simp [Expr.derivation, Derivation.tokens]
  rw [htokens]
  exact writes_group (writes_joined c hwrites hwrites')

end LikePrinted

/-! ## Trees of generated lines -/

/-- The parser builds the tree from what the draws lead to. -/
def Grows {σ : Type} (draws : Draws σ) (set : SymbolSet) (symbols : List Char) (depth : Nat) (s : σ)
    (e : Expr) : Prop :=
  ∃ line s', formulaOver draws symbols depth s = .ok (line, s') ∧
    Expr.ofText set (String.ofList line) = .ok e

/-- No more than one tree comes from the same draws. -/
theorem Grows.unique {σ : Type} {draws : Draws σ} {set : SymbolSet} {symbols : List Char}
    {depth : Nat} {s : σ} {e e' : Expr} (h : Grows draws set symbols depth s e)
    (h' : Grows draws set symbols depth s e') : e = e' := by
  obtain ⟨line, _, hline, htree⟩ := h
  obtain ⟨line', _, hline', htree'⟩ := h'
  cases hline.symm.trans hline'
  exact Except.ok.inj (htree.symm.trans htree')

section

variable {σ : Type} {set : SymbolSet} {symbols : List Char}
variable (hne : symbols ≠ []) (hnames : ∀ c ∈ symbols, c ∈ set.names)
variable {depth : Nat} (hdepth : depth ≤ nestingLimit)
include hne hnames hdepth

/-- Whatever is drawn, the line has a tree with less than `2 ^ depth` nested operators. -/
theorem exists_grows (draws : Draws σ) (s : σ) :
    ∃ e, Grows draws set symbols depth s e ∧ e.nesting < 2 ^ depth := by
  obtain ⟨first, others, rfl⟩ := List.exists_cons_of_ne_nil hne
  obtain ⟨tokens, hwrites, ⟨d, rfl, hnested⟩, hcount⟩ :=
    always_formula (P := FewOperators set) (.any _) (fun _ c hc => .symbol (hnames c hc))
      (fun _ _ h => h.negation) (fun _ grouped c _ _ _ hl hr => hl.joined grouped c hr) depth s
  have htree := Expr.ofText_of_writes hwrites fun n hn => Nat.le_trans (hnested n hn) hdepth
  exact ⟨d.tree, ⟨_, _, rfl, htree⟩, Nat.lt_of_le_of_lt d.nesting_le_countP hcount⟩

/-- If parentheses are always drawn, the steps of construction bound the nesting. -/
theorem exists_grows_of_grouped {draws : Draws σ}
    (hgroup : ∀ s, (draws.chance groupThreshold s).1 = true) (s : σ) :
    ∃ e, Grows draws set symbols depth s e ∧ e.nesting ≤ depth := by
  obtain ⟨first, others, rfl⟩ := List.exists_cons_of_ne_nil hne
  have hgrouping : Always (· = true) (draws.chance groupThreshold) := hgroup
  obtain ⟨e, hwrites, hnesting⟩ :=
    always_formula (P := LikePrinted set) hgrouping (fun _ c hc => .symbol (hnames c hc))
      (fun _ _ h => h.negation) (fun _ _ c _ _ hgrouped hl hr => hgrouped ▸ hl.joined c hr) depth s
  have htree := Expr.ofText_of_writes_derivation hwrites fun n hn =>
    Nat.le_trans (Expr.le_nesting_of_mem_depths hn) (Nat.le_trans hnesting hdepth)
  exact ⟨e, ⟨_, _, rfl, htree⟩, hnesting⟩

end

/-! ## Chains without parentheses -/

/-- A word that stands for no event. -/
def noEvent : UInt64 := 0xFFFFFFFFFFFFFFFF

/-- Words for formulas that are joined by `^` as often as there are steps, never with parentheses. -/
def chainWords : Nat → List UInt64
  | 0 => [0]
  | depth + 1 =>
    noEvent :: noEvent :: 0xAAAAAAAB :: (chainWords depth ++ (chainWords depth ++ [noEvent]))

section

variable (rest : List UInt64) (taken : Nat)

theorem bind_apply {σ α β : Type} (m : StateM σ α) (f : α → StateM σ β) (s : σ) :
    (m >>= f) s = f (m s).1 (m s).2 :=
  rfl

theorem chance_noEvent {threshold : Nat} (h : threshold < UInt64.size) :
    Words.draws.chance threshold ⟨noEvent :: rest, taken⟩ = (false, ⟨rest, taken + 1⟩) := by
  have hword : noEvent.toNat = UInt64.size - 1 := by decide
  have hnot : ¬ noEvent.toNat < threshold := by omega
  show (decide (noEvent.toNat < threshold), _) = _
  rw [decide_eq_false hnot]

theorem choose_and :
    Words.draws.choose Connective.implies [.or, .and] ⟨0xAAAAAAAB :: rest, taken⟩ =
      (.and, ⟨rest, taken + 1⟩) :=
  rfl

theorem choose_first (first : Char) (others : List Char) :
    Words.draws.choose first others ⟨0 :: rest, taken⟩ = (first, ⟨rest, taken + 1⟩) := by
  have hzero (n : Nat) : Words.product 0 n = 0 := Nat.zero_mul n
  have hup : Words.draws.upTo others.length ⟨0 :: rest, taken⟩ = (0, ⟨rest, taken + 1⟩) := by
    show Words.upTo others.length (0 :: rest) taken = _
    simp only [Words.upTo, hzero, Nat.zero_mod, Nat.zero_le, if_true, Nat.zero_div]
    rfl
  rw [Draws.choose, bind_apply, hup]
  rfl

/-- What comes out is the longest chain. -/
theorem writes_formula_chainWords {set : SymbolSet} {s : Symbol} {first : Char}
    (hs : set.Writes [first] [.symbol s]) (others : List Char) (depth : Nat) :
    ∃ line taken', formula Words.draws first others depth ⟨chainWords depth ++ rest, taken⟩ =
        (line, ⟨rest, taken'⟩) ∧
      set.Writes line (Expr.repeated s (2 ^ depth - 1)).tokens := by
  induction depth generalizing rest taken with
  | zero =>
      refine ⟨[first], taken + 1, ?_, hs⟩
      have hchoice := choose_first rest taken first others
      rw [formula, bind_apply, chainWords, List.singleton_append, hchoice]
      rfl
  | succ depth ih =>
      obtain ⟨left, taken₁, hleft, hwrites⟩ := ih (chainWords depth ++ noEvent :: rest) (taken + 3)
      obtain ⟨right, taken₂, hright, hwrites'⟩ := ih (noEvent :: rest) taken₁
      have hsymbol : symbolThreshold < UInt64.size := by decide
      have hnegation : negationThreshold < UInt64.size := by decide
      have hgroup : groupThreshold < UInt64.size := by decide
      refine ⟨joined false .and left right, taken₂ + 1, ?_, ?_⟩
      · simp only [formula, chainWords, bind_apply, List.cons_append, List.append_assoc,
          List.nil_append, chance_noEvent _ _ hsymbol, chance_noEvent _ _ hnegation, choose_and,
          chance_noEvent _ _ hgroup, hleft, hright, Bool.false_eq_true, if_false]
        rfl
      · have hcount : 2 ^ depth - 1 + (2 ^ depth - 1) + 1 = 2 ^ (depth + 1) - 1 := by
          have hpos := Nat.two_pow_pos depth
          rw [Nat.pow_succ]
          omega
        rw [← hcount, ← Expr.tokens_repeated_append]
        exact writes_joined .and hwrites hwrites'

end

/-- The bound on nesting is reached, for any symbols and at any depth. -/
theorem exists_chain_grows {set : SymbolSet} {symbols : List Char} (hne : symbols ≠ [])
    (hnames : ∀ c ∈ symbols, c ∈ set.names) (depth : Nat) :
    ∃ s e, Grows Words.draws set symbols depth s e ∧ e.nesting = 2 ^ depth - 1 := by
  obtain ⟨first, others, rfl⟩ := List.exists_cons_of_ne_nil hne
  obtain ⟨s, hs⟩ := exists_writes_symbol (hnames first (List.mem_cons_self ..))
  obtain ⟨line, taken, hline, hwrites⟩ := writes_formula_chainWords [] 0 hs others depth
  exact ⟨_, _, ⟨line, _, congrArg Except.ok hline, Expr.ofText_of_writes_repeated hwrites⟩,
    Expr.nesting_repeated s _⟩

/-! ## How deeply formulas are nested -/

theorem le_one_of_two_pow_le {depth : Nat} (h : 2 ^ depth - 1 ≤ depth) : depth ≤ 1 := by
  match depth with
  | 0 | 1 => decide
  | m + 2 =>
      have hm : m < 2 ^ m := Nat.lt_two_pow_self
      rw [Nat.pow_succ, Nat.pow_succ] at h
      omega

/-- Whatever is drawn for a list of usable symbols, a formula comes out that the parser reads within its
    limit, and its tree has at most `2 ^ depth - 1` nested negations and connectives. Some draws lead to a
    tree with as many, so `depth` is a bound on nesting for all draws only if it is at most one. It is one
    at any depth for draws that always set parentheses around joined formulas. -/
theorem formulaOver_nesting {set : SymbolSet} {symbols : List Char} (hne : symbols ≠ [])
    (hnames : ∀ c ∈ symbols, c ∈ set.names) {depth : Nat} (hdepth : depth ≤ nestingLimit) :
    (∀ {σ : Type} (draws : Draws σ) (s : σ),
      ∃ e, Grows draws set symbols depth s e ∧ e.nesting ≤ 2 ^ depth - 1) ∧
    (∃ s e, Grows Words.draws set symbols depth s e ∧ e.nesting = 2 ^ depth - 1) ∧
    ((∀ s, ∃ e, Grows Words.draws set symbols depth s e ∧ e.nesting ≤ depth) ↔ depth ≤ 1) ∧
    ∀ {σ : Type} (draws : Draws σ), (∀ s, (draws.chance groupThreshold s).1 = true) →
      ∀ s, ∃ e, Grows draws set symbols depth s e ∧ e.nesting ≤ depth := by
  have hall : ∀ {σ : Type} (draws : Draws σ) (s : σ),
      ∃ e, Grows draws set symbols depth s e ∧ e.nesting ≤ 2 ^ depth - 1 := by
    intro σ draws s
    obtain ⟨e, hgrows, hlt⟩ := exists_grows hne hnames hdepth draws s
    exact ⟨e, hgrows, Nat.le_sub_one_of_lt hlt⟩
  have hchain := exists_chain_grows hne hnames depth
  refine ⟨hall, hchain, ⟨fun h => ?_, fun hle s => ?_⟩,
    fun draws hgroup => exists_grows_of_grouped hne hnames hdepth hgroup⟩
  · obtain ⟨s, e, hgrows, hnesting⟩ := hchain
    obtain ⟨e', hgrows', hnesting'⟩ := h s
    rw [hgrows'.unique hgrows, hnesting] at hnesting'
    exact le_one_of_two_pow_le hnesting'
  · obtain ⟨e, hgrows, hnesting⟩ := hall Words.draws s
    refine ⟨e, hgrows, Nat.le_trans hnesting ?_⟩
    rcases Nat.le_one_iff_eq_zero_or_eq_one.1 hle with rfl | rfl
    · exact Nat.le_refl 0
    · exact Nat.le_refl 1

/-- Two steps of construction and three nested implications. -/
theorem formulaOver_nesting_exceeds_depth :
    ∃ set e, SymbolSet.ofList ["p"] = .ok set ∧
      formulaOver Words.draws ['p'] 2
          ⟨[noEvent, noEvent, 0, noEvent, noEvent, 0, 0, 0, noEvent,
            noEvent, noEvent, 0, 0, 0, noEvent, noEvent], 0⟩ =
        .ok ("p > p > p > p".toList, ⟨[], 16⟩) ∧
      Expr.ofText set "p > p > p > p" = .ok e ∧ e.nesting = 3 ∧ ¬ e.nesting ≤ 2 := by
  let p : Derivation (.operand .implies) := (Derivation.symbol ⟨'p', 0⟩).ofUnary _
  let d : Derivation .formula := .extend (.extend (.extend (.operand p) p) p) p
  refine ⟨_, d.tree, rfl, rfl, (Expr.ofText_eq_ok_iff _).2 ⟨d, rfl, rfl, ?_⟩, rfl, by decide⟩
  simp [d, p, Derivation.Fits, Derivation.nestings, nestingLimit]

/-- One symbol and two steps, for draws of words and for draws that say yes to parentheses alone. -/
theorem formulaOver_nesting_of_two :
    let grouping : Draws Unit :=
      { chance := fun threshold => pure (threshold == groupThreshold), upTo := fun _ => pure 0 }
    ∃ set, SymbolSet.ofList ["p"] = .ok set ∧
      (∃ s e, Grows Words.draws set ['p'] 2 s e ∧ e.nesting = 3) ∧
      ∃ e, Grows grouping set ['p'] 2 () e ∧ e.nesting ≤ 2 := by
  intro grouping
  have hgroup : ∀ s, (grouping.chance groupThreshold s).1 = true :=
    fun _ => beq_self_eq_true groupThreshold
  have hnesting : ∀ set : SymbolSet, 'p' ∈ set.names →
      (∃ s e, Grows Words.draws set ['p'] 2 s e ∧ e.nesting = 3) ∧
        ∃ e, Grows grouping set ['p'] 2 () e ∧ e.nesting ≤ 2 := by
    intro set hp
    obtain ⟨-, hchain, -, hgrouped⟩ :=
      formulaOver_nesting (List.cons_ne_nil 'p' []) (List.forall_mem_singleton.2 hp)
        (by decide : 2 ≤ nestingLimit)
    exact ⟨hchain, hgrouped grouping hgroup ()⟩
  exact ⟨_, rfl, hnesting _ (List.mem_singleton_self 'p')⟩

end Generator

end TruthTables
