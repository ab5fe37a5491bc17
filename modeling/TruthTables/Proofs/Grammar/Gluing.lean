import TruthTables.Proofs.Grammar.Derivation

set_option autoImplicit false

/-! # Formulas made of formulas

Two formulas with a connective between them are a formula, and so is a formula behind a negation sign.
This is not one step of the grammar, because a part may hold connectives that bind more loosely than the
new sign. Then the parts fall apart and are grouped anew: `~` takes just the first operand of `p > q`,
and `p > q ^ r` is no chain of `^`. What a part leaves open on its side goes on, or is taken apart
operand by operand, and the tokens stay as they are. No symbol gets deeper by more than the new sign,
which is what `DerivesWithin` keeps count of. -/

namespace TruthTables

/-- The tokens derive from a nonterminal, and at most `depth` signs enclose each symbol. -/
def DerivesWithin (L : Level) (depth : Nat) (tokens : List Token) : Prop :=
  ∃ d : Derivation L, d.tokens = tokens ∧ ∀ n ∈ d.nestings, n ≤ depth

namespace DerivesWithin

variable {L : Level} {c : Connective} {depth : Nat} {tokens left right : List Token}

theorem mono {depth' : Nat} (h : DerivesWithin L depth tokens) (hle : depth ≤ depth') :
    DerivesWithin L depth' tokens := by
  obtain ⟨d, htokens, hd⟩ := h
  exact ⟨d, htokens, fun n hn => Nat.le_trans (hd n hn) hle⟩

theorem operand (h : DerivesWithin (.operand c) depth tokens) :
    DerivesWithin (.chain c) depth tokens := by
  obtain ⟨d, htokens, hd⟩ := h
  exact ⟨.operand d, htokens, hd⟩

/-- Something unary is the only operand of chains at every level. -/
theorem of_unary (h : DerivesWithin .unary depth tokens) : DerivesWithin L depth tokens := by
  have hand : DerivesWithin (.chain .and) depth tokens := operand h
  have hor : DerivesWithin (.chain .or) depth tokens := operand hand
  have himplies : DerivesWithin (.chain .implies) depth tokens := operand hor
  cases L with
  | unary => exact h
  | chain c => cases c <;> assumption

/-! ## A connective between two formulas -/

/-- A chain goes on with its own connective. -/
theorem extend (hl : DerivesWithin (.chain c) depth left) (hr : DerivesWithin (.operand c) depth right) :
    DerivesWithin (.chain c) depth (left ++ .operator (.binary c) :: right) := by
  obtain ⟨l, rfl, hl⟩ := hl
  obtain ⟨r, rfl, hr⟩ := hr
  exact ⟨.extend l r, rfl, List.forall_mem_append.2 ⟨hl, hr⟩⟩

/-- What can be written behind an operand of a chain can be written behind the chain: its last operand
    grows. -/
theorem extend_last {behind : List Token}
    (hoperand : ∀ tokens, DerivesWithin (.operand c) depth tokens →
      DerivesWithin (.operand c) depth (tokens ++ behind))
    (h : DerivesWithin (.chain c) depth tokens) :
    DerivesWithin (.chain c) depth (tokens ++ behind) := by
  obtain ⟨d, rfl, hd⟩ := h
  cases d with
  | operand d => exact operand (hoperand d.tokens ⟨d, rfl, hd⟩)
  | extend l r =>
      obtain ⟨hl, hr⟩ := List.forall_mem_append.1 hd
      rw [Derivation.tokens, List.append_assoc, List.cons_append]
      exact extend ⟨l, rfl, hl⟩ (hoperand r.tokens ⟨r, rfl, hr⟩)

theorem append_unary (hl : DerivesWithin .formula depth left)
    (hr : DerivesWithin .unary depth right) :
    DerivesWithin .formula depth (left ++ .operator (.binary c) :: right) := by
  -- the chain that goes on is the last one of the given connective
  have hchain : ∀ tokens, DerivesWithin (.chain c) depth tokens →
      DerivesWithin (.chain c) depth (tokens ++ .operator (.binary c) :: right) :=
    fun tokens h => extend h hr.of_unary
  cases c with
  | implies => exact hchain left hl
  | or => exact extend_last hchain hl
  | and => exact extend_last (fun tokens h => extend_last (c := .or) hchain h) hl

/-- A connective between two formulas. The operands of the right one are written behind the left one
    one by one. -/
theorem join (hl : DerivesWithin .formula depth left) (hr : DerivesWithin L depth right) :
    DerivesWithin .formula depth (left ++ .operator (.binary c) :: right) := by
  obtain ⟨r, rfl, hr⟩ := hr
  induction r generalizing left c with
  | symbol s => exact append_unary hl ⟨.symbol s, rfl, hr⟩
  | negation r _ => exact append_unary hl ⟨.negation r, rfl, hr⟩
  | group r _ => exact append_unary hl ⟨.group r, rfl, hr⟩
  | operand r ih => exact ih hl hr
  | @extend c' r₁ r₂ ih₁ ih₂ =>
      -- the beginning of the chain joins the left side, which its last operand joins in turn
      obtain ⟨hr₁, hr₂⟩ := List.forall_mem_append.1 hr
      have hleft : DerivesWithin .formula depth (left ++ .operator (.binary c) :: r₁.tokens) :=
        ih₁ hl hr₁
      have hboth := ih₂ (c := c') hleft hr₂
      rwa [List.append_assoc, List.cons_append] at hboth

/-! ## A negation sign and parentheses -/

theorem forall_mem_map_succ {ns : List Nat} (h : ∀ n ∈ ns, n ≤ depth) :
    ∀ n ∈ ns.map (· + 1), n ≤ depth + 1 := by
  intro n hn
  obtain ⟨m, hm, rfl⟩ := List.mem_map.1 hn
  exact Nat.succ_le_succ (h m hm)

theorem symbol (s : Symbol) : DerivesWithin .formula depth [.symbol s] :=
  of_unary ⟨.symbol s, rfl, by simp [Derivation.nestings]⟩

theorem group (h : DerivesWithin .formula depth tokens) :
    DerivesWithin .formula (depth + 1) (.opening :: tokens ++ [.closing]) := by
  obtain ⟨d, rfl, hd⟩ := h
  exact of_unary ⟨.group d, rfl, forall_mem_map_succ hd⟩

/-- A negation sign before a formula. It stays with the first operand. -/
theorem negation (h : DerivesWithin L depth tokens) :
    DerivesWithin .formula (depth + 1) (.operator .not :: tokens) := by
  obtain ⟨d, rfl, hd⟩ := h
  have hunary : ∀ u : Derivation .unary, (∀ n ∈ u.nestings, n ≤ depth) →
      DerivesWithin .formula (depth + 1) (.operator .not :: u.tokens) :=
    fun u hu => of_unary ⟨.negation u, rfl, forall_mem_map_succ hu⟩
  induction d with
  | symbol s => exact hunary (.symbol s) hd
  | negation d _ => exact hunary (.negation d) hd
  | group d _ => exact hunary (.group d) hd
  | operand d ih => exact ih hd
  | extend l r ih _ =>
      -- the sign goes to the beginning of the chain, and the last operand is written behind that
      obtain ⟨hl, hr⟩ := List.forall_mem_append.1 hd
      have hright : DerivesWithin _ (depth + 1) r.tokens := mono ⟨r, rfl, hr⟩ (Nat.le_succ depth)
      exact join (ih hl) hright

end DerivesWithin

end TruthTables
