import TruthTables.Proofs.Expr.Reading

set_option autoImplicit false

/-! # Where reading stops

Reading from left to right without ever going back, the parser notices a mistake at the first token that
no formula has at this place. There are four places where it can stop: where an operand should begin, where
nesting has become too deep, behind the formula in a group, and behind the whole formula. `Stops` follows
the calls of the parser down to the place, with derivations for all that was read on the way. Since these
derivations fit within the limit, what was read in front of the place can be completed to a formula of the
same level (`Stops.refuses`), and since the parser has looked at nothing behind the place, reading stops
there whatever comes next (`Stops.append`). -/

namespace TruthTables

namespace Expr

/-- Reading something of a level stops at an obstacle. -/
inductive Stops : Level → Nat → List Token → Obstacle → Prop
  /-- The place is nested too deeply. -/
  | tooDeep {depth : Nat} (h : nestingLimit < depth) (tokens : List Token) :
    Stops .unary depth tokens .tooDeep
  /-- No operand begins here. -/
  | operand {depth : Nat} {tokens : List Token} (h : depth ≤ nestingLimit)
    (hno : ∀ t rest, tokens = t :: rest → Place.next .operand t = none) :
    Stops .unary depth tokens (.unexpected tokens)
  /-- Reading stops behind a negation sign. -/
  | negation {depth : Nat} {tokens : List Token} {obstacle : Obstacle} (h : depth ≤ nestingLimit)
    (inner : Stops .unary (depth + 1) tokens obstacle) :
    Stops .unary depth (.operator .not :: tokens) obstacle
  /-- Reading stops inside a group. -/
  | group {depth : Nat} {tokens : List Token} {obstacle : Obstacle} (h : depth ≤ nestingLimit)
    (inner : Stops .formula (depth + 1) tokens obstacle) :
    Stops .unary depth (.opening :: tokens) obstacle
  /-- The formula in a group ends without a `)` behind it. -/
  | closing {depth : Nat} (d : Derivation .formula) {rest : List Token} (hfits : d.Fits (depth + 1))
    (hloose : LooserThan Level.formula.rank rest) (hno : ∀ rest', rest ≠ .closing :: rest') :
    Stops .unary depth (.opening :: (d.tokens ++ rest)) (.unexpected rest)
  /-- Reading stops inside the first operand of a chain. -/
  | first {c : Connective} {depth : Nat} {tokens : List Token} {obstacle : Obstacle}
    (inner : Stops (.operand c) depth tokens obstacle) : Stops (.chain c) depth tokens obstacle
  /-- Reading stops inside a later operand of a chain. -/
  | later {c : Connective} {depth : Nat} (d : Derivation (.chain c)) {tokens : List Token}
    {obstacle : Obstacle} (hfits : d.Fits depth) (inner : Stops (.operand c) depth tokens obstacle) :
    Stops (.chain c) depth (d.tokens ++ .operator (.binary c) :: tokens) obstacle

/-! ## Every failure is a stop -/

theorem bind_eq_error_iff {r : Reading} {f : Expr × List Token → Reading} {obstacle : Obstacle} :
    r.bind f = .error obstacle ↔
      r = .error obstacle ∨ ∃ e rest, r = .ok (e, rest) ∧ f (e, rest) = .error obstacle := by
  cases r with
  | error obstacle' => simp [Except.bind]
  | ok first =>
      obtain ⟨e, rest⟩ := first
      simp [Except.bind, and_assoc]

theorem closeGroup_of_not_closing {e : Expr} {rest : List Token}
    (h : ∀ rest', rest ≠ .closing :: rest') : closeGroup (e, rest) = .error (.unexpected rest) := by
  unfold closeGroup
  split
  · next rest' heq =>
      cases heq
      exact absurd rfl (h rest')
  · next heq =>
      cases heq
      rfl

theorem closeGroup_eq_error_iff {e : Expr} {rest : List Token} {obstacle : Obstacle} :
    closeGroup (e, rest) = .error obstacle ↔
      obstacle = .unexpected rest ∧ ∀ rest', rest ≠ .closing :: rest' := by
  constructor
  · intro h
    have hno : ∀ rest', rest ≠ .closing :: rest' := by
      rintro rest' rfl
      exact absurd h (by simp [closeGroup])
    rw [closeGroup_of_not_closing hno] at h
    exact ⟨(Except.error.inj h).symm, hno⟩
  · rintro ⟨rfl, hno⟩
    exact closeGroup_of_not_closing hno

/-- Going on with a chain stops inside one of its later operands. -/
theorem stops_of_goOn {c : Connective} {depth : Nat} (d : Derivation (.chain c)) (tokens : List Token)
    {obstacle : Obstacle} (hfits : d.Fits depth) (hloose : LooserThan (Level.operand c).rank tokens)
    (operand : ∀ tokens', tokens'.length < tokens.length → ∀ obstacle',
      read (.operand c) depth tokens' = .error obstacle' →
        Stops (.operand c) depth tokens' obstacle')
    (h : goOn (.chain c) depth d.tree tokens = .error obstacle) :
    Stops (.chain c) depth (d.tokens ++ tokens) obstacle := by
  -- on the number of tokens to go, since the derivation grows
  induction hlen : tokens.length using Nat.strongRecOn generalizing d tokens with
  | ind k ih =>
      rcases hloose.of_operand with hend | ⟨tokens', rfl⟩
      · rw [goOn_looserThan (L := .chain c) hend] at h
        exact absurd h (by simp)
      · rw [goOn_connective, bind_eq_error_iff] at h
        rcases h with hread | ⟨right, rest', hread, h⟩
        · exact .later d hfits (operand tokens' (by simp) obstacle hread)
        · obtain ⟨r, rfl, rfl, hr, hloose'⟩ :=
            exists_derivation_of_read (.operand c) tokens' depth right rest' hread
          have hlt : rest'.length < k := by
            rw [← hlen, List.length_cons, List.length_append]
            omega
          have hstop := ih rest'.length hlt (.extend d r) rest'
            ((d.fits_extend_iff r depth).2 ⟨hfits, hr⟩) hloose'
            (fun tokens h => operand tokens (by
              rw [List.length_cons, List.length_append]
              omega)) h rfl
          rwa [Derivation.tokens, List.append_assoc, List.cons_append] at hstop

theorem stops_of_read (L : Level) (tokens : List Token) :
    ∀ depth obstacle, read L depth tokens = .error obstacle → Stops L depth tokens obstacle := by
  induction L, tokens using Level.induction_on_tokens with
  | unary tokens ih =>
      intro depth obstacle h
      by_cases hdepth : nestingLimit < depth
      · rw [read_tooDeep hdepth] at h
        cases h
        exact .tooDeep hdepth tokens
      · have hdepth := Nat.le_of_not_lt hdepth
        by_cases hno : ∀ t rest, tokens = t :: rest → Place.next .operand t = none
        · rw [read_unexpected hdepth hno] at h
          cases h
          exact .operand hdepth hno
        · -- what begins an operand is a symbol, or it encloses what follows
          cases tokens with
          | nil => exact absurd (by simp) hno
          | cons token rest =>
            cases token with
            | symbol s =>
                rw [read_symbol hdepth] at h
                exact absurd h (by simp)
            | closing => exact absurd (by simp [Place.next]) hno
            | operator o =>
                cases o with
                | binary c => exact absurd (by simp [Place.next]) hno
                | not =>
                    rw [read_negation hdepth, bind_eq_error_iff] at h
                    rcases h with hread | ⟨_, _, _, h⟩
                    · exact .negation hdepth (ih .unary rest (by simp) _ _ hread)
                    · exact absurd h (by simp)
            | opening =>
                rw [read_group hdepth, bind_eq_error_iff] at h
                rcases h with hread | ⟨e, rest', hread, h⟩
                · exact .group hdepth (ih .formula rest (by simp) _ _ hread)
                · obtain ⟨rfl, hclosing⟩ := closeGroup_eq_error_iff.1 h
                  obtain ⟨d, rfl, -, hfits, hloose⟩ :=
                    exists_derivation_of_read .formula rest (depth + 1) e rest' hread
                  exact .closing d hfits hloose hclosing
  | chain c tokens operand ih =>
      intro depth obstacle h
      rw [read_chain, bind_eq_error_iff] at h
      rcases h with hread | ⟨left, rest, hread, h⟩
      · exact .first (operand depth obstacle hread)
      · obtain ⟨d, rfl, rfl, hfits, hloose⟩ :=
          exists_derivation_of_read (.operand c) tokens depth left rest hread
        exact stops_of_goOn (.operand d) rest hfits hloose
          (fun tokens' hlen => ih (.operand c) tokens' (by rw [List.length_append]; omega) depth) h

/-- Where reading stops is where it fails. -/
theorem Stops.read_eq {L : Level} {depth : Nat} {tokens : List Token} {obstacle : Obstacle}
    (h : Stops L depth tokens obstacle) : read L depth tokens = .error obstacle := by
  induction h with
  | tooDeep h tokens => exact read_tooDeep h tokens
  | operand h hno => exact read_unexpected h hno
  | negation h _ ih =>
      rw [read_negation h, ih]
      rfl
  | group h _ ih =>
      rw [read_group h, ih]
      rfl
  | closing d hfits hloose hno =>
      rw [read_group (Nat.le_of_succ_le hfits.depth_le),
        read_tokens d _ _ hfits (hloose.mono (Nat.le_succ _)), goOn_looserThan hloose]
      exact closeGroup_of_not_closing hno
  | first _ ih =>
      rw [read_chain, ih]
      rfl
  | @later c depth d tokens obstacle hfits _ ih =>
      have hnext : LooserThan (c.rank + 1) (.operator (.binary c) :: tokens) := Nat.lt_succ_self c.rank
      rw [read_tokens d depth _ hfits hnext, goOn_connective, ih]
      rfl

/-! ## What comes behind the place -/

/-- Whatever comes behind, reading stops where nesting has become too deep. -/
theorem Stops.append {L : Level} {depth : Nat} {tokens : List Token}
    (h : Stops L depth tokens .tooDeep) (behind : List Token) :
    Stops L depth (tokens ++ behind) .tooDeep := by
  generalize hobstacle : Obstacle.tooDeep = obstacle at h
  induction h with
  | tooDeep h tokens => exact .tooDeep h _
  | operand => exact absurd hobstacle (by simp)
  | negation h _ ih => exact .negation h (ih hobstacle)
  | group h _ ih => exact .group h (ih hobstacle)
  | closing => exact absurd hobstacle (by simp)
  | first _ ih => exact .first (ih hobstacle)
  | later d hfits _ ih =>
      rw [List.append_assoc, List.cons_append]
      exact .later d hfits (ih hobstacle)

/-! ## What stands in front of the place -/

/-- The tokens in front can be completed to something of a level, and the first token of the rest cannot
    come next. -/
structure Refuses (L : Level) (depth : Nat) (front rest : List Token) : Prop where
  completion : ∃ (d : Derivation L) (behind : List Token),
    d.tokens = front ++ behind ∧ d.Fits depth
  refusal : ∃ place, front.foldlM Place.next .operand = some place ∧
    ∀ t rest', rest = t :: rest' → place.next t = none

namespace Refuses

variable {depth : Nat} {front rest : List Token}

/-- Any symbol completes an operand that has not begun. -/
theorem operand (h : depth ≤ nestingLimit)
    (hno : ∀ t rest', rest = t :: rest' → Place.next .operand t = none) :
    Refuses .unary depth [] rest where
  completion := ⟨.symbol ⟨'p', 0⟩, _, rfl, (Derivation.fits_symbol_iff _ depth).2 h⟩
  refusal := ⟨.operand, rfl, hno⟩

theorem negation (h : Refuses .unary (depth + 1) front rest) :
    Refuses .unary depth (.operator .not :: front) rest where
  completion := by
    obtain ⟨d, behind, hd, hfits⟩ := h.completion
    refine ⟨.negation d, behind, ?_, (d.fits_negation_iff depth).2 hfits⟩
    rw [Derivation.tokens, hd, List.cons_append]
  refusal := h.refusal

theorem group (h : Refuses .formula (depth + 1) front rest) :
    Refuses .unary depth (.opening :: front) rest where
  completion := by
    obtain ⟨d, behind, hd, hfits⟩ := h.completion
    refine ⟨.group d, behind ++ [.closing], ?_, (d.fits_group_iff depth).2 hfits⟩
    rw [Derivation.tokens, hd, List.cons_append, List.cons_append, List.append_assoc]
  refusal := h.refusal

/-- Behind a formula, what neither goes on with it nor closes its group has no place. -/
theorem behind_formula {d : Derivation .formula} (hfits : d.Fits depth)
    (hloose : LooserThan Level.formula.rank rest) (hno : ∀ rest', rest ≠ .closing :: rest') :
    Refuses .formula depth d.tokens rest where
  completion := ⟨d, [], (List.append_nil _).symm, hfits⟩
  refusal := by
    refine ⟨.operator, d.foldlM_next_tokens, ?_⟩
    rintro t rest' rfl
    cases t with
    | symbol s => rfl
    | opening => rfl
    | closing => exact absurd rfl (hno rest')
    | operator o =>
        cases o with
        | not => rfl
        | binary c => exact absurd hloose (Nat.not_lt_zero c.rank)

theorem first {c : Connective} (h : Refuses (.operand c) depth front rest) :
    Refuses (.chain c) depth front rest where
  completion := by
    obtain ⟨d, behind, hd, hfits⟩ := h.completion
    exact ⟨.operand d, behind, hd, hfits⟩
  refusal := h.refusal

theorem later {c : Connective} {d : Derivation (.chain c)} (hfits : d.Fits depth)
    (h : Refuses (.operand c) depth front rest) :
    Refuses (.chain c) depth (d.tokens ++ .operator (.binary c) :: front) rest where
  completion := by
    obtain ⟨r, behind, hr, hfits'⟩ := h.completion
    refine ⟨.extend d r, behind, ?_, (d.fits_extend_iff r depth).2 ⟨hfits, hfits'⟩⟩
    rw [Derivation.tokens, hr, List.append_assoc, List.cons_append]
  refusal := by
    obtain ⟨place, hplace, hno⟩ := h.refusal
    refine ⟨place, ?_, hno⟩
    rw [List.foldlM_append, d.foldlM_next_tokens]
    exact hplace

end Refuses

/-- Where reading meets what it does not expect, the tokens in front can be completed, and the next one
    has no place. -/
theorem Stops.refuses {L : Level} {depth : Nat} {tokens rest : List Token}
    (h : Stops L depth tokens (.unexpected rest)) :
    ∃ front, tokens = front ++ rest ∧ Refuses L depth front rest := by
  generalize hobstacle : Obstacle.unexpected rest = obstacle at h
  induction h with
  | tooDeep => exact absurd hobstacle (by simp)
  | operand h hno =>
      cases hobstacle
      exact ⟨[], rfl, .operand h hno⟩
  | negation _ _ ih =>
      obtain ⟨front, rfl, hrefuses⟩ := ih hobstacle
      exact ⟨_, rfl, hrefuses.negation⟩
  | group _ _ ih =>
      obtain ⟨front, rfl, hrefuses⟩ := ih hobstacle
      exact ⟨_, rfl, hrefuses.group⟩
  | closing d hfits hloose hno =>
      cases hobstacle
      exact ⟨_, rfl, (Refuses.behind_formula hfits hloose hno).group⟩
  | first _ ih =>
      obtain ⟨front, rfl, hrefuses⟩ := ih hobstacle
      exact ⟨front, rfl, hrefuses.first⟩
  | later d hfits _ ih =>
      obtain ⟨front, rfl, hrefuses⟩ := ih hobstacle
      exact ⟨d.tokens ++ _ :: front, by simp, hrefuses.later hfits⟩

/-! ## All tokens -/

/-- Some tokens that are read into a tree begin with these. -/
def Viable (tokens : List Token) : Prop :=
  ∃ behind e, ofTokens (tokens ++ behind) = .ok e

/-- Tokens that are read alternate and are balanced. -/
theorem exists_ofTokens_imp {tokens : List Token} {e : Expr} (h : ofTokens tokens = .ok e) :
    Alternates tokens ∧ Balanced tokens :=
  (exists_derives_iff tokens).1 ⟨e, .of_ofTokens h⟩

theorem viable_of_tokens_eq {d : Derivation .formula} {front behind : List Token} (hfits : d.Fits 0)
    (h : d.tokens = front ++ behind) : Viable front :=
  ⟨behind, d.tree, (ofTokens_eq_ok_iff _ _).2 ⟨d, h, rfl, hfits⟩⟩

/-- No formula begins with tokens of which the last has no place. -/
theorem Refuses.not_viable {L : Level} {depth : Nat} {front rest : List Token} {t : Token}
    (h : Refuses L depth front (t :: rest)) : ¬ Viable (front ++ [t]) := by
  rintro ⟨behind, e, he⟩
  obtain ⟨place, hplace, hno⟩ := h.refusal
  obtain ⟨halternates, -⟩ := exists_ofTokens_imp he
  rw [Alternates, List.append_assoc, List.foldlM_append, hplace] at halternates
  exact absurd halternates (by simp [hno t rest rfl])

/-- No formula goes on behind a whole formula with a `)`. -/
theorem not_viable_closing (d : Derivation .formula) : ¬ Viable (d.tokens ++ [.closing]) := by
  rintro ⟨behind, e, he⟩
  obtain ⟨-, hbalanced⟩ := exists_ofTokens_imp he
  rw [Balanced, List.append_assoc, List.foldlM_append, d.foldlM_nest_tokens] at hbalanced
  exact absurd hbalanced (by simp [nest])

theorem ofTokens_of_stops {tokens : List Token} {obstacle : Obstacle}
    (h : Stops .formula 0 tokens obstacle) :
    ofTokens tokens = .error (obstacle.toMalformed tokens.length) := by
  rw [ofTokens_eq, h.read_eq]

/-- Why tokens are not read, by what can still become of them. -/
inductive Fails : List Token → Malformed → Prop
  /-- Reading stops where nesting is too deep. -/
  | tooDeep {tokens : List Token} (h : Stops .formula 0 tokens .tooDeep) : Fails tokens .tooDeep
  /-- The tokens can become a formula. -/
  | unexpectedEnd {tokens : List Token} (h : Viable tokens) : Fails tokens .unexpectedEnd
  /-- The tokens in front of the one that is named can become a formula, but not with it. -/
  | unexpectedToken {front : List Token} {t : Token} (rest : List Token) (h : Viable front)
    (hno : ¬ Viable (front ++ [t])) :
    Fails (front ++ t :: rest) (.unexpectedToken t front.length)

/-- What is left gives the position of its first token. -/
theorem Fails.of_unexpected {front rest : List Token} (h : Viable front)
    (hno : ∀ t rest', rest = t :: rest' → ¬ Viable (front ++ [t])) :
    Fails (front ++ rest) ((Obstacle.unexpected rest).toMalformed (front ++ rest).length) := by
  cases rest with
  | nil =>
      rw [List.append_nil]
      exact .unexpectedEnd h
  | cons t rest =>
      rw [Obstacle.toMalformed, List.length_append, List.length_cons, Nat.add_sub_cancel]
      exact .unexpectedToken rest h (hno t rest rfl)

theorem fails_of_ofTokens {tokens : List Token} {cause : Malformed}
    (h : ofTokens tokens = .error cause) : Fails tokens cause := by
  rw [ofTokens_eq] at h
  split at h
  · next obstacle hread =>
      cases h
      have hstops := stops_of_read .formula tokens 0 obstacle hread
      cases obstacle with
      | tooDeep => exact .tooDeep hstops
      | unexpected rest =>
          obtain ⟨front, rfl, hrefuses⟩ := hstops.refuses
          obtain ⟨d, behind, hd, hfits⟩ := hrefuses.completion
          apply Fails.of_unexpected (viable_of_tokens_eq hfits hd)
          rintro t rest' rfl
          exact hrefuses.not_viable
  · next e rest hread =>
      -- a whole formula is read, and it is not the end
      obtain ⟨d, rfl, -, hfits, hloose⟩ := exists_derivation_of_read .formula tokens 0 e rest hread
      split at h
      · exact absurd h (by simp)
      · cases h
        apply Fails.of_unexpected (viable_of_tokens_eq hfits (List.append_nil _).symm)
        rintro t rest' rfl
        by_cases hclosing : t = .closing
        · exact hclosing ▸ not_viable_closing d
        · have hno : ∀ rest'', t :: rest' ≠ .closing :: rest'' := by
            intro rest'' heq
            exact hclosing (List.cons.inj heq).1
          exact (Refuses.behind_formula hfits hloose hno).not_viable

/-- The parser fails for one of three causes, at the first place where the tokens cannot be part of a
    formula that is read. An unexpected token is the one at its position: what stands in front of it begins
    a formula, and with the token nothing does. At an unexpected end the tokens are no formula yet, and
    begin one. Where nesting is too deep, no formula begins with the tokens, and whatever comes behind
    them, nothing else is reported. -/
theorem ofTokens_fails_at_first_impossible (tokens : List Token) :
    (∀ t position, ofTokens tokens = .error (.unexpectedToken t position) →
      position < tokens.length ∧ tokens[position]? = some t ∧
        Viable (tokens.take position) ∧ ¬ Viable (tokens.take (position + 1))) ∧
    (ofTokens tokens = .error .unexpectedEnd →
      (¬ ∃ e, ofTokens tokens = .ok e) ∧ Viable tokens) ∧
    (ofTokens tokens = .error .tooDeep →
      ¬ Viable tokens ∧ ∀ behind, ofTokens (tokens ++ behind) = .error .tooDeep) ∧
    ∀ cause, ofTokens tokens = .error cause →
      (∃ t position, cause = .unexpectedToken t position) ∨ cause = .unexpectedEnd ∨
        cause = .tooDeep := by
  refine ⟨fun t position h => ?_, fun h => ?_, fun h => ?_, fun cause h => ?_⟩
  · cases fails_of_ofTokens h with
    | @unexpectedToken front _ rest hviable hno =>
        have hbefore : (front ++ t :: rest).take front.length = front := List.take_left
        have hthrough : (front ++ t :: rest).take (front.length + 1) = front ++ [t] := by
          rw [List.take_length_add_append, List.take_succ_cons, List.take_zero]
        rw [hbefore, hthrough]
        exact ⟨by simp, by simp, hviable, hno⟩
  · cases fails_of_ofTokens h with
    | unexpectedEnd hviable =>
        refine ⟨?_, hviable⟩
        rintro ⟨e, he⟩
        exact absurd (h.symm.trans he) (by simp)
  · cases fails_of_ofTokens h with
    | tooDeep hstops =>
        have hbehind : ∀ behind, ofTokens (tokens ++ behind) = .error .tooDeep := by
          intro behind
          exact ofTokens_of_stops (hstops.append behind)
        refine ⟨?_, hbehind⟩
        rintro ⟨behind, e, he⟩
        exact absurd ((hbehind behind).symm.trans he) (by simp)
  · cases fails_of_ofTokens h with
    | tooDeep => exact Or.inr (Or.inr rfl)
    | unexpectedEnd => exact Or.inr (Or.inl rfl)
    | unexpectedToken => exact Or.inl ⟨_, _, rfl⟩

/-- Signs of negation beyond the limit are too many, before anything is negated. -/
theorem stops_negations {n depth : Nat} (h : nestingLimit < depth + n) :
    Stops .unary depth (List.replicate n (.operator .not)) .tooDeep := by
  induction n generalizing depth with
  | zero => exact .tooDeep h _
  | succ n ih =>
      by_cases hdepth : nestingLimit < depth
      · exact .tooDeep hdepth _
      · exact .negation (Nat.le_of_not_lt hdepth) (ih (by omega))

/-- A group with a symbol where its `)` should be, a negation sign at the end, and one negation sign more
    than the limit. -/
theorem ofTokens_fails_at_first_impossible_in_group :
    let p : Token := .symbol ⟨'p', 0⟩
    (ofTokens [.opening, p, p] = .error (.unexpectedToken p 2) ∧
      Viable [.opening, p] ∧ ¬ Viable [.opening, p, p]) ∧
    (ofTokens [.operator .not] = .error .unexpectedEnd ∧ Viable [.operator .not]) ∧
    ofTokens (List.replicate (nestingLimit + 1) (.operator .not)) = .error .tooDeep ∧
      ofTokens (List.replicate (nestingLimit + 1) (.operator .not) ++ [p]) = .error .tooDeep := by
  intro p
  let d : Derivation .formula := .operand (.operand (.operand (.symbol ⟨'p', 0⟩)))
  have hgroup : Stops .formula 0 [.opening, p, p] (.unexpected [p]) :=
    .first (.first (.first (.closing d (by simp [d, Derivation.Fits, Derivation.nestings, nestingLimit])
      trivial (by simp [p]))))
  have hend : Stops .formula 0 [.operator .not] (.unexpected []) :=
    .first (.first (.first (.negation (Nat.zero_le _) (.operand (by decide) (by simp)))))
  have hdeep : Stops .formula 0 (List.replicate (nestingLimit + 1) (.operator .not)) .tooDeep :=
    .first (.first (.first (stops_negations (by omega))))
  have htoken := ofTokens_of_stops hgroup
  have hnegation := ofTokens_of_stops hend
  have hnegations := ofTokens_of_stops hdeep
  obtain ⟨-, -, hviable, hnot⟩ := (ofTokens_fails_at_first_impossible _).1 p 2 htoken
  exact ⟨⟨htoken, hviable, hnot⟩,
    ⟨hnegation, ((ofTokens_fails_at_first_impossible _).2.1 hnegation).2⟩,
    hnegations, ((ofTokens_fails_at_first_impossible _).2.2.1 hnegations).2 [p]⟩

end Expr

end TruthTables
