import TruthTables.Expr.Parser
import TruthTables.Proofs.Grammar.Alternation

set_option autoImplicit false

/-! # What is read

The parser returns its trees with proofs that tokens were consumed, which it needs to end. `read` is the
same without the proofs, and for all levels of the grammar at once: `read L` reads something of the level
`L`, `goOn L` continues it to the right. The equations of the parser are proved for these two, one for
each kind of token.

A derivation is read back from its tokens (`read_tokens`) if its symbols are not nested too deeply, and
otherwise reading stops for that reason (`read_tokens_tooDeep`). What is read is derived
(`exists_derivation_of_read`). The chains are the difficulty: a derivation has its last operand on top,
whereas the parser reads the first one and goes on. So the first statement is about reading a derivation
in front of an arbitrary rest, and the last one about going on from an arbitrary derivation. -/

namespace TruthTables

namespace Expr

/-! ## Readings -/

/-- A tree and the tokens behind it. -/
abbrev Reading := Except Obstacle (Expr × List Token)

/-- Forget that tokens were consumed. -/
def forget {P : List Token → Prop} :
    Except Obstacle (Expr × { rest : List Token // P rest }) → Reading
  | .error obstacle => .error obstacle
  | .ok (e, ⟨rest, _⟩) => .ok (e, rest)

/-- Read the `)` of a group behind what stands in it. -/
def closeGroup : Expr × List Token → Reading
  | (e, .closing :: rest) => .ok (e, rest)
  | (_, rest) => .error (.unexpected rest)

/-- Read something of a level. -/
def read : Level → Nat → List Token → Reading
  | .unary, depth, tokens => forget (readUnary depth tokens)
  | .chain c, depth, tokens => forget (readChain c depth tokens)

/-- Go on with something of a level of which `left` is read already. -/
def goOn : Level → Nat → Expr → List Token → Reading
  | .unary, _, left, tokens => .ok (left, tokens)
  | .chain c, depth, left, tokens => forget (extendChain c depth left tokens)

theorem bind_eq_ok_iff {r : Reading} {f : Expr × List Token → Reading} {result : Expr × List Token} :
    r.bind f = .ok result ↔ ∃ e rest, r = .ok (e, rest) ∧ f (e, rest) = .ok result := by
  cases r with
  | error obstacle => simp [Except.bind]
  | ok first =>
      obtain ⟨e, rest⟩ := first
      simp [Except.bind, and_assoc]

theorem closeGroup_eq_ok_iff {e e' : Expr} {rest rest' : List Token} :
    closeGroup (e, rest) = .ok (e', rest') ↔ e = e' ∧ rest = .closing :: rest' := by
  unfold closeGroup
  split
  · next heq =>
      cases heq
      simp
  · next hne heq =>
      cases heq
      simpa using fun _ => hne rest'

/-! ## The equations of reading -/

theorem read_tooDeep {depth : Nat} (h : nestingLimit < depth) (tokens : List Token) :
    read .unary depth tokens = .error .tooDeep := by
  rw [read]
  unfold readUnary
  rw [if_pos h]
  rfl

section

variable {depth : Nat} (h : depth ≤ nestingLimit)
include h

theorem read_symbol (s : Symbol) (rest : List Token) :
    read .unary depth (.symbol s :: rest) = .ok (.var s, rest) := by
  rw [read, readUnary, if_neg (Nat.not_lt_of_le h)]
  rfl

theorem read_negation (rest : List Token) : read .unary depth (.operator .not :: rest) =
    (read .unary (depth + 1) rest).bind fun inner => .ok (.not inner.1, inner.2) := by
  rw [read, readUnary, if_neg (Nat.not_lt_of_le h), read]
  cases readUnary (depth + 1) rest <;> rfl

theorem read_group (rest : List Token) : read .unary depth (.opening :: rest) =
    (read .formula (depth + 1) rest).bind closeGroup := by
  rw [read, readUnary, if_neg (Nat.not_lt_of_le h), read]
  cases readChain .implies (depth + 1) rest with
  | error obstacle => rfl
  | ok result =>
      obtain ⟨e, rest', hrest'⟩ := result
      rcases rest' with _ | ⟨_ | _ | _ | _, rest'⟩ <;> rfl

/-- Where no operand can begin, nothing is read. -/
theorem read_unexpected {tokens : List Token}
    (hno : ∀ t rest, tokens = t :: rest → Place.next .operand t = none) :
    read .unary depth tokens = .error (.unexpected tokens) := by
  rw [read]
  unfold readUnary
  rw [if_neg (Nat.not_lt_of_le h)]
  cases tokens with
  | nil => rfl
  | cons t rest =>
    have hnone := hno t rest rfl
    cases t with
    | symbol s => exact absurd hnone (by simp [Place.next])
    | opening => exact absurd hnone (by simp [Place.next])
    | closing => rfl
    | operator o =>
        cases o with
        | not => exact absurd hnone (by simp [Place.next])
        | binary c => rfl

end

theorem forget_readOperand (c : Connective) (depth : Nat) (tokens : List Token) :
    forget (readOperand c depth tokens) = read (.operand c) depth tokens := by
  cases c <;> rw [readOperand] <;> rfl

theorem read_chain (c : Connective) (depth : Nat) (tokens : List Token) :
    read (.chain c) depth tokens =
      (read (.operand c) depth tokens).bind fun left => goOn (.chain c) depth left.1 left.2 := by
  rw [← forget_readOperand, read, readChain]
  cases readOperand c depth tokens with
  | error obstacle => rfl
  | ok result =>
      obtain ⟨left, rest, hrest⟩ := result
      show _ = forget (extendChain c depth left rest)
      dsimp only
      cases extendChain c depth left rest <;> rfl

theorem goOn_connective (c : Connective) (depth : Nat) (left : Expr) (rest : List Token) :
    goOn (.chain c) depth left (.operator (.binary c) :: rest) =
      (read (.operand c) depth rest).bind fun right =>
        goOn (.chain c) depth (.binary c left right.1) right.2 := by
  rw [← forget_readOperand, goOn, extendChain, if_pos rfl]
  cases readOperand c depth rest with
  | error obstacle => rfl
  | ok result =>
      obtain ⟨right, rest', hrest'⟩ := result
      show _ = forget (extendChain c depth (.binary c left right) rest')
      dsimp only
      cases extendChain c depth (.binary c left right) rest' <;> rfl

/-- A chain ends where its connective does not come next. -/
theorem goOn_end {c : Connective} {tokens : List Token}
    (hend : ∀ rest, tokens ≠ .operator (.binary c) :: rest) (depth : Nat) (left : Expr) :
    goOn (.chain c) depth left tokens = .ok (left, tokens) := by
  rw [goOn]
  unfold extendChain
  split
  · next d rest =>
      have hne : d ≠ c := by
        rintro rfl
        exact hend rest rfl
      rw [if_neg hne]
      rfl
  · rfl

theorem goOn_looserThan {L : Level} {tokens : List Token} (h : LooserThan L.rank tokens)
    (depth : Nat) (left : Expr) : goOn L depth left tokens = .ok (left, tokens) := by
  cases L with
  | unary => rfl
  | chain c =>
      refine goOn_end ?_ depth left
      rintro rest rfl
      exact Nat.lt_irrefl c.rank h

/-! ## Derivations are read -/

/-- The tokens of a derivation are read back, and reading goes on behind them. -/
theorem read_tokens {L : Level} (d : Derivation L) (depth : Nat) (rest : List Token)
    (hfits : d.Fits depth) (hloose : LooserThan (L.rank + 1) rest) :
    read L depth (d.tokens ++ rest) = goOn L depth d.tree rest := by
  induction d generalizing depth rest with
  | symbol s => exact read_symbol hfits.depth_le s rest
  | negation d ih =>
      rw [Derivation.tokens, List.cons_append, read_negation hfits.depth_le,
        ih (depth + 1) rest ((d.fits_negation_iff depth).1 hfits) hloose]
      rfl
  | group d ih =>
      -- whatever comes behind the group, the formula inside ends at its `)`
      have hclosing : LooserThan Level.formula.rank (.closing :: rest) := trivial
      have hinner := (d.fits_group_iff depth).1 hfits
      rw [Derivation.tokens, List.cons_append, List.cons_append, List.append_assoc,
        List.singleton_append, read_group hfits.depth_le,
        ih (depth + 1) _ hinner (hclosing.mono (Nat.le_succ _)), goOn_looserThan hclosing]
      rfl
  | @operand c d ih =>
      have hend := hloose.operand_of_chain
      rw [Derivation.tokens, read_chain, ih depth rest hfits (hend.mono (Nat.le_succ _)),
        goOn_looserThan hend]
      rfl
  | @extend c l r ihl ihr =>
      have hend := hloose.operand_of_chain
      obtain ⟨hl, hr⟩ := (l.fits_extend_iff r depth).1 hfits
      have hnext : LooserThan (c.rank + 1) (.operator (.binary c) :: (r.tokens ++ rest)) :=
        Nat.lt_succ_self c.rank
      rw [Derivation.tokens, List.append_assoc, List.cons_append, ihl depth _ hl hnext,
        goOn_connective, ihr depth rest hr (hend.mono (Nat.le_succ _)), goOn_looserThan hend]
      rfl

/-- Tokens of a derivation that is nested too deeply are not read. -/
theorem read_tokens_tooDeep {L : Level} (d : Derivation L) (depth : Nat) (rest : List Token)
    (hdeep : ¬ d.Fits depth) (hloose : LooserThan (L.rank + 1) rest) :
    read L depth (d.tokens ++ rest) = .error .tooDeep := by
  induction d generalizing depth rest with
  | symbol s =>
      rw [Derivation.fits_symbol_iff] at hdeep
      exact read_tooDeep (Nat.lt_of_not_le hdeep) _
  | negation d ih =>
      by_cases hdepth : depth ≤ nestingLimit
      · rw [Derivation.fits_negation_iff] at hdeep
        rw [Derivation.tokens, List.cons_append, read_negation hdepth,
          ih (depth + 1) rest hdeep hloose]
        rfl
      · exact read_tooDeep (Nat.lt_of_not_le hdepth) _
  | group d ih =>
      by_cases hdepth : depth ≤ nestingLimit
      · have hclosing : LooserThan (Level.formula.rank + 1) (.closing :: rest) := trivial
        rw [Derivation.fits_group_iff] at hdeep
        rw [Derivation.tokens, List.cons_append, List.cons_append, List.append_assoc,
          List.singleton_append, read_group hdepth, ih (depth + 1) _ hdeep hclosing]
        rfl
      · exact read_tooDeep (Nat.lt_of_not_le hdepth) _
  | @operand c d ih =>
      have hend := hloose.operand_of_chain
      rw [Derivation.tokens, read_chain, ih depth rest hdeep (hend.mono (Nat.le_succ _))]
      rfl
  | @extend c l r ihl ihr =>
      have hnext : LooserThan (c.rank + 1) (.operator (.binary c) :: (r.tokens ++ rest)) :=
        Nat.lt_succ_self c.rank
      rw [Derivation.tokens, List.append_assoc, List.cons_append]
      by_cases hl : l.Fits depth
      · -- the left part is read, so it is the last operand that is nested too deeply
        have hr : ¬ r.Fits depth := fun hr => hdeep ((l.fits_extend_iff r depth).2 ⟨hl, hr⟩)
        have hend := hloose.operand_of_chain
        rw [read_tokens l depth _ hl hnext, goOn_connective,
          ihr depth rest hr (hend.mono (Nat.le_succ _))]
        rfl
      · exact ihl depth _ hl hnext

/-! ## What is read is derived -/

/-- Going on with a chain extends its derivation, up to a token that does not make the chain longer. -/
theorem exists_derivation_of_goOn {c : Connective} {depth : Nat} (d : Derivation (.chain c))
    (tokens : List Token) {e : Expr} {rest : List Token} (hfits : d.Fits depth)
    (hloose : LooserThan (Level.operand c).rank tokens)
    (operand : ∀ tokens', tokens'.length < tokens.length → ∀ e' rest',
      read (.operand c) depth tokens' = .ok (e', rest') →
        ∃ r : Derivation (.operand c), tokens' = r.tokens ++ rest' ∧ r.tree = e' ∧ r.Fits depth ∧
          LooserThan (Level.operand c).rank rest')
    (h : goOn (.chain c) depth d.tree tokens = .ok (e, rest)) :
    ∃ d' : Derivation (.chain c), d.tokens ++ tokens = d'.tokens ++ rest ∧ d'.tree = e ∧
      d'.Fits depth ∧ LooserThan c.rank rest := by
  -- on the number of tokens to go, since the derivation grows
  induction hlen : tokens.length using Nat.strongRecOn generalizing d tokens with
  | ind k ih =>
      rcases hloose.of_operand with hend | ⟨tokens', rfl⟩
      · rw [goOn_looserThan (L := .chain c) hend] at h
        cases h
        exact ⟨d, rfl, rfl, hfits, hend⟩
      · rw [goOn_connective, bind_eq_ok_iff] at h
        obtain ⟨right, rest', hread, h⟩ := h
        obtain ⟨r, rfl, rfl, hr, hloose'⟩ := operand tokens' (by simp) right rest' hread
        have hlt : rest'.length < k := by
          rw [← hlen, List.length_cons, List.length_append]
          omega
        obtain ⟨d', hd', hresult⟩ := ih rest'.length hlt (.extend d r) rest'
          ((d.fits_extend_iff r depth).2 ⟨hfits, hr⟩) hloose'
          (fun tokens h => operand tokens (by
            rw [List.length_cons, List.length_append]
            omega)) h rfl
        refine ⟨d', ?_, hresult⟩
        rw [← hd', Derivation.tokens, List.append_assoc, List.cons_append]

/-- Whatever is read has a derivation, with the same tree and within the limit, and what is left does
    not go on with it. -/
theorem exists_derivation_of_read (L : Level) (tokens : List Token) :
    ∀ depth e rest, read L depth tokens = .ok (e, rest) →
      ∃ d : Derivation L, tokens = d.tokens ++ rest ∧ d.tree = e ∧ d.Fits depth ∧
        LooserThan L.rank rest := by
  induction L, tokens using Level.induction_on_tokens with
  | unary tokens ih =>
      intro depth e rest h
      have hdepth : depth ≤ nestingLimit := by
        refine Nat.le_of_not_lt fun hlt => ?_
        rw [read_tooDeep hlt] at h
        exact absurd h (by simp)
      cases tokens with
      | nil =>
          rw [read_unexpected hdepth (by simp)] at h
          exact absurd h (by simp)
      | cons token tokens =>
        cases token with
        | symbol s =>
            rw [read_symbol hdepth] at h
            cases h
            exact ⟨.symbol s, rfl, rfl, (Derivation.fits_symbol_iff s depth).2 hdepth, .unary rest⟩
        | closing =>
            rw [read_unexpected hdepth (by simp [Place.next])] at h
            exact absurd h (by simp)
        | operator o =>
          cases o with
          | binary c =>
              rw [read_unexpected hdepth (by simp [Place.next])] at h
              exact absurd h (by simp)
          | not =>
              rw [read_negation hdepth, bind_eq_ok_iff] at h
              obtain ⟨e', rest', hread, h⟩ := h
              cases h
              obtain ⟨d, rfl, rfl, hd, hloose⟩ := ih .unary tokens (by simp) _ _ _ hread
              exact ⟨.negation d, rfl, rfl, (d.fits_negation_iff depth).2 hd, hloose⟩
        | opening =>
            rw [read_group hdepth, bind_eq_ok_iff] at h
            obtain ⟨e', rest', hread, h⟩ := h
            obtain ⟨rfl, rfl⟩ := closeGroup_eq_ok_iff.1 h
            obtain ⟨d, rfl, rfl, hd, -⟩ := ih .formula tokens (by simp) _ _ _ hread
            exact ⟨.group d, by simp [Derivation.tokens], rfl, (d.fits_group_iff depth).2 hd,
              .unary rest⟩
  | chain c tokens operand ih =>
      intro depth e rest h
      rw [read_chain, bind_eq_ok_iff] at h
      obtain ⟨left, rest', hread, h⟩ := h
      obtain ⟨d, rfl, rfl, hfits, hloose⟩ := operand depth left rest' hread
      exact exists_derivation_of_goOn (.operand d) rest' hfits hloose
        (fun tokens' hlen => ih (.operand c) tokens' (by rw [List.length_append]; omega) depth) h

/-! ## All tokens -/

/-- The parser reads a formula and refuses what is behind it. -/
theorem ofTokens_eq (tokens : List Token) :
    ofTokens tokens =
      match read .formula 0 tokens with
      | .error obstacle => .error (obstacle.toMalformed tokens.length)
      | .ok (e, rest) =>
        if rest.isEmpty then .ok e
        else .error ((Obstacle.unexpected rest).toMalformed tokens.length) := by
  rw [ofTokens, read]
  cases readChain .implies 0 tokens <;> rfl

/-- The tokens with a tree are those of a derivation within the limit. -/
theorem ofTokens_eq_ok_iff (tokens : List Token) (e : Expr) :
    ofTokens tokens = .ok e ↔
      ∃ d : Derivation .formula, d.tokens = tokens ∧ d.tree = e ∧ d.Fits 0 := by
  rw [ofTokens_eq]
  constructor
  · intro h
    split at h
    · exact absurd h (by simp)
    · next e' rest hread =>
        obtain ⟨d, hd, htree, hfits, -⟩ := exists_derivation_of_read .formula tokens 0 e' rest hread
        split at h
        · next hrest =>
            rw [List.isEmpty_iff.1 hrest, List.append_nil] at hd
            cases h
            exact ⟨d, hd.symm, htree, hfits⟩
        · exact absurd h (by simp)
  · rintro ⟨d, rfl, rfl, hfits⟩
    have hend : LooserThan Level.formula.rank [] := trivial
    have hread := read_tokens d 0 [] hfits trivial
    rw [List.append_nil, goOn_looserThan hend] at hread
    rw [hread]
    rfl

/-- Where a formula is nested too deeply, the parser says so. -/
theorem ofTokens_eq_tooDeep (d : Derivation .formula) (hdeep : ¬ d.Fits 0) :
    ofTokens d.tokens = .error .tooDeep := by
  have hread := read_tokens_tooDeep d 0 [] hdeep trivial
  rw [List.append_nil] at hread
  rw [ofTokens_eq, hread]
  rfl

end Expr

/-- A tree that is read is derived. -/
theorem Derives.of_ofTokens {tokens : List Token} {e : Expr} (h : Expr.ofTokens tokens = .ok e) :
    Derives tokens e := by
  obtain ⟨d, htokens, htree, -⟩ := (Expr.ofTokens_eq_ok_iff tokens e).1 h
  exact ⟨d, htokens, htree⟩

end TruthTables
