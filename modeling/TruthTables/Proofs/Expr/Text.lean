import TruthTables.Proofs.Expr.Reading
import TruthTables.Proofs.Formula.Text
import TruthTables.Proofs.Postfix.Order

set_option autoImplicit false

/-! # Trees of formula texts

A text has a tree exactly when its tokens are those of a formula whose symbols are not nested too deeply.
Judging the text first takes nothing away: the tokens of a formula pass (`Derives.checkText_eq_ok`), and
what does not pass has no derivation. So only the tokens matter, and the parser of tokens decides. -/

namespace TruthTables

namespace Expr

variable {set : SymbolSet} {text : String}

/-- A text that is in order is read by its tokens. -/
theorem ofText_eq {tokens : List Token} (hcheck : set.checkText text = .ok ())
    (htokens : set.tokensOf text = .ok tokens) :
    ofText set text = (ofTokens tokens).mapError (.malformed text) := by
  rw [ofText, hcheck, htokens]

/-- The text of a formula is read by its tokens. -/
theorem ofText_tokens (d : Derivation .formula) (htokens : set.tokensOf text = .ok d.tokens) :
    ofText set text = (ofTokens d.tokens).mapError (.malformed text) := by
  have hderives : Derives d.tokens d.tree := ⟨d, rfl, rfl⟩
  exact ofText_eq (hderives.checkText_eq_ok htokens) htokens

/-- The texts with a tree are those whose tokens have a derivation within the limit. -/
theorem ofText_eq_ok_iff (e : Expr) :
    ofText set text = .ok e ↔
      ∃ d : Derivation .formula, set.tokensOf text = .ok d.tokens ∧ d.tree = e ∧ d.Fits 0 := by
  constructor
  · intro h
    rw [ofText] at h
    split at h
    · exact absurd h (by simp)
    · split at h
      · exact absurd h (by simp)
      · next tokens htokens =>
          cases hread : ofTokens tokens with
          | error cause =>
              rw [hread] at h
              change Except.error _ = _ at h
              exact absurd h (by simp)
          | ok e' =>
              rw [hread] at h
              cases h
              obtain ⟨d, rfl, htree, hfits⟩ := (ofTokens_eq_ok_iff tokens e).1 hread
              exact ⟨d, htokens, htree, hfits⟩
  · rintro ⟨d, htokens, htree, hfits⟩
    rw [ofText_tokens d htokens, (ofTokens_eq_ok_iff d.tokens e).2 ⟨d, rfl, htree, hfits⟩]
    rfl

/-- Characters that write the tokens of a derivation within the limit are read as its tree. -/
theorem ofText_of_writes {cs : List Char} {d : Derivation .formula} (hwrites : set.Writes cs d.tokens)
    (hnested : ∀ n ∈ d.nestings, n ≤ nestingLimit) : ofText set (String.ofList cs) = .ok d.tree := by
  refine (ofText_eq_ok_iff d.tree).2 ⟨d, hwrites.tokensOf_eq, rfl, fun n hn => ?_⟩
  rw [Nat.zero_add]
  exact hnested n hn

/-- The parser accepts exactly its grammar. A text has the tree `e` if and only if its significant
    characters are known and its tokens have a derivation with the tree `e` that nests no symbol beyond
    the limit. No other tree is derivable then, and no node joins its parts by a negation sign. A
    grammatical text is never found fault with, and if a symbol is nested beyond the limit, then this
    is what is said. -/
theorem ofText_accepts_grammar (set : SymbolSet) (text : String) :
    (∀ e, ofText set text = .ok e ↔
      (∀ entry ∈ significant text.toList, set.isKnown entry.1 = true) ∧
        ∃ d : Derivation .formula, set.tokensOf text = .ok d.tokens ∧ d.tree = e ∧
          ∀ n ∈ d.nestings, n ≤ nestingLimit) ∧
    (∀ e, ofText set text = .ok e →
      (∀ tokens e', set.tokensOf text = .ok tokens → Derives tokens e' → e' = e) ∧
        ∀ c l r, .binary c l r ∈ e.subtrees → Operator.binary c ≠ .not) ∧
    ∀ d : Derivation .formula, set.tokensOf text = .ok d.tokens →
      set.checkText text = .ok () ∧
        ((∃ n ∈ d.nestings, nestingLimit < n) →
          ofText set text = .error (.malformed text .tooDeep)) := by
  have hfits : ∀ d : Derivation .formula, d.Fits 0 ↔ ∀ n ∈ d.nestings, n ≤ nestingLimit := by
    intro d
    simp only [Derivation.Fits, Nat.zero_add]
  refine ⟨fun e => ?_, fun e h => ⟨?_, fun c l r _ => ?_⟩, fun d htokens => ⟨?_, ?_⟩⟩
  · simp only [ofText_eq_ok_iff, hfits]
    constructor
    · rintro ⟨d, htokens, hd⟩
      exact ⟨(SymbolSet.exists_tokensOf_iff text).1 ⟨d.tokens, htokens⟩, d, htokens, hd⟩
    · exact fun h => h.2
  · intro tokens e' htokens hderives
    obtain ⟨d, hd, htree, -⟩ := (ofText_eq_ok_iff e).1 h
    have heq : tokens = d.tokens := Except.ok.inj (htokens.symm.trans hd)
    exact hderives.unique ⟨d, heq.symm, htree⟩
  · simp
  · have hderives : Derives d.tokens d.tree := ⟨d, rfl, rfl⟩
    exact hderives.checkText_eq_ok htokens
  · rintro ⟨n, hn, hlt⟩
    have hdeep : ¬ d.Fits 0 := fun h => Nat.not_le_of_lt hlt ((hfits d).1 h n hn)
    rw [ofText_tokens d htokens, ofTokens_eq_tooDeep d hdeep]
    rfl

/-- A negated group before a connective that binds more loosely. -/
theorem ofText_accepts_negated_group :
    ∃ set, SymbolSet.ofList ["p", "q"] = .ok set ∧ ofText set "~(p|q)>q" =
      .ok (.binary .implies (.not (.binary .or (.var ⟨'p', 0⟩) (.var ⟨'q', 1⟩))) (.var ⟨'q', 1⟩)) := by
  let inner : Derivation .formula := .operand
    (.extend (.operand (.operand (.symbol ⟨'p', 0⟩))) (.operand (.symbol ⟨'q', 1⟩)))
  let d : Derivation .formula := .extend
    (.operand (.operand (.operand (.negation (.group inner)))))
    (.operand (.operand (.symbol ⟨'q', 1⟩)))
  refine ⟨_, rfl, ((ofText_accepts_grammar _ "~(p|q)>q").1 d.tree).2 ⟨?_, d, rfl, rfl, ?_⟩⟩
  · exact (SymbolSet.exists_tokensOf_iff "~(p|q)>q").1 ⟨d.tokens, rfl⟩
  · simp [d, inner, Derivation.nestings, nestingLimit]

end Expr

end TruthTables
