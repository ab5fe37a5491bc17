import TruthTables.Postfix.Conversion
import TruthTables.Proofs.Grammar.Derivation
import TruthTables.Proofs.Postfix.Machine

set_option autoImplicit false

/-! # The order of operations

Conversion to postfix puts the operators of a formula where the tree of its derivation has them: behind
their operands, in post-order. The two have no recursion in common. What connects them is `Converts`:
when the tokens of a derivation have been read, the stack of pending operators is the old one with some
operators on top, and these are just what is missing from the listing of the tree. How tightly the
operators on top bind tells that the next token of the surrounding formula releases them all; that
nothing below them is released is `Holds`, which the tokens read so far provide for. -/

namespace TruthTables

namespace Pending

/-! ## Conversion in parts -/

/-- The tokens that some tokens release. -/
def released : List Pending → List Token → List Token
  | _, [] => []
  | stack, token :: rest => (step stack token).1 ++ released (step stack token).2 rest

theorem after_append (stack : List Pending) (tokens rest : List Token) :
    after stack (tokens ++ rest) = after (after stack tokens) rest :=
  List.foldl_append

theorem released_append (stack : List Pending) (tokens rest : List Token) :
    released stack (tokens ++ rest) = released stack tokens ++ released (after stack tokens) rest := by
  induction tokens generalizing stack with
  | nil => rfl
  | cons token tokens ih =>
      rw [List.cons_append, released, released, ih, List.append_assoc]
      rfl

/-- A sequence is converted by what it releases, and then the stack is drained. -/
theorem convert_eq (stack : List Pending) (tokens : List Token) :
    convert stack tokens = released stack tokens ++ (drain (after stack tokens)).map .operator := by
  induction tokens generalizing stack with
  | nil => rfl
  | cons token tokens ih =>
      rw [convert, released, List.append_assoc]
      show (step stack token).1 ++ convert (step stack token).2 tokens = _
      rw [ih]
      rfl

theorem ofTokens_eq_append (tokens : List Token) : Postfix.ofTokens tokens =
    ⟨released [] tokens ++ (drain (after [] tokens)).map .operator⟩ := by
  rw [Postfix.ofTokens, convert_eq]

/-! ## Releasing operators -/

theorem yieldsTo_binary_iff (o : Operator) (c : Connective) :
    o.yieldsTo (.binary c) = true ↔ c.rank ≤ o.rank := by
  show (true && decide (c.rank ≤ o.rank)) = true ↔ c.rank ≤ o.rank
  rw [Bool.true_and, decide_eq_true_iff]

/-- A negation sign releases nothing. -/
theorem step_negation (stack : List Pending) :
    step stack (.operator .not) = ([], .operator .not :: stack) := by
  have hnone : release .not stack = ([], stack) := by
    unfold release
    split
    · rw [Operator.not_yieldsTo_not, if_neg Bool.false_ne_true]
    · rfl
  rw [step, hnone]
  rfl

/-- A negation sign at the end comes in front of the operators that were pending. -/
theorem ofTokens_append_negation (tokens : List Token) :
    Postfix.ofTokens (tokens ++ [.operator .not]) =
      ⟨released [] tokens ++ .operator .not :: (drain (after [] tokens)).map .operator⟩ := by
  have hstep : released (after [] tokens) [.operator .not] = [] := by
    rw [released, step_negation]
    rfl
  have hafter : after (after [] tokens) [.operator .not] = .operator .not :: after [] tokens := by
    show (step _ _).2 = _
    rw [step_negation]
  rw [ofTokens_eq_append, released_append, after_append, hstep, hafter, List.append_nil]
  rfl

/-- No operator on top of the stack is complete when a connective of the given rank or a higher one
    comes. -/
def Holds (rank : Nat) (stack : List Pending) : Prop :=
  ∀ c : Connective, rank ≤ c.rank → release (.binary c) stack = ([], stack)

theorem Holds.mono {m n : Nat} {stack : List Pending} (h : Holds m stack) (hmn : m ≤ n) :
    Holds n stack :=
  fun c hc => h c (Nat.le_trans hmn hc)

theorem holds_nil (rank : Nat) : Holds rank [] :=
  fun _ _ => rfl

theorem holds_group (rank : Nat) (stack : List Pending) : Holds rank (.group :: stack) :=
  fun _ _ => rfl

/-- No connective is as tight as something unary. -/
theorem holds_unary (stack : List Pending) : Holds Level.unary.rank stack := by
  intro c hc
  exact absurd hc (by cases c <;> decide)

/-- A connective holds while its right operand is read. -/
theorem holds_operand (c : Connective) (stack : List Pending) :
    Holds (Level.operand c).rank (.operator (.binary c) :: stack) := by
  intro d hd
  rw [Level.rank_operand] at hd
  have hno : ¬ Operator.yieldsTo (.binary c) (.binary d) = true := by
    rw [yieldsTo_binary_iff]
    exact Nat.not_le_of_lt hd
  rw [release, if_neg hno]

theorem release_append (c : Connective) (ops : List Operator) (stack : List Pending)
    (htight : ∀ o ∈ ops, c.rank ≤ o.rank) (hold : Holds c.rank stack) :
    release (.binary c) (ops.map .operator ++ stack) = (ops, stack) := by
  induction ops with
  | nil => exact hold c (Nat.le_refl _)
  | cons o ops ih =>
      have hyields : o.yieldsTo (.binary c) = true :=
        (yieldsTo_binary_iff o c).2 (htight o (List.mem_cons_self ..))
      rw [List.map_cons, List.cons_append, release, if_pos hyields,
        ih fun o' ho' => htight o' (List.mem_cons_of_mem _ ho')]

theorem close_append (ops : List Operator) (stack : List Pending) :
    close (ops.map .operator ++ .group :: stack) = (ops, stack) := by
  induction ops with
  | nil => rfl
  | cons o ops ih => rw [List.map_cons, List.cons_append, close, ih]

theorem drain_map (ops : List Operator) : drain (ops.map .operator) = ops := by
  induction ops with
  | nil => rfl
  | cons o ops ih => exact congrArg (o :: ·) ih

/-! ## Converting derivations -/

theorem tight_concat {rank : Nat} {ops : List Operator} {last : Operator}
    (hops : ∀ o ∈ ops, rank ≤ o.rank) (hlast : rank ≤ last.rank) :
    ∀ o ∈ ops ++ [last], rank ≤ o.rank := by
  intro o ho
  rcases List.mem_append.1 ho with ho | ho
  · exact hops o ho
  · rwa [List.mem_singleton.1 ho]

/-- Reading the tokens puts `ops` on top of the stack, all of at least the given rank, and together
    with what was released they list the tree. -/
structure Converts (rank : Nat) (stack : List Pending) (tokens : List Token) (e : Expr)
    (ops : List Operator) : Prop where
  tight : ∀ o ∈ ops, rank ≤ o.rank
  after_eq : after stack tokens = ops.map .operator ++ stack
  listing : released stack tokens ++ ops.map .operator = e.postorder

namespace Converts

variable {stack : List Pending} {tokens : List Token} {e : Expr} {ops : List Operator}

theorem symbol (s : Symbol) (stack : List Pending) :
    Converts Level.unary.rank stack [.symbol s] (.var s) [] where
  tight := by simp
  after_eq := rfl
  listing := rfl

/-- A negation sign stays on the stack, below what its operand leaves there. -/
theorem negation (h : Converts Level.unary.rank (.operator .not :: stack) tokens e ops) :
    Converts Level.unary.rank stack (.operator .not :: tokens) (.not e) (ops ++ [.not]) where
  tight := tight_concat h.tight (Nat.le_refl _)
  after_eq := by
    show after (step stack (.operator .not)).2 tokens = _
    rw [step_negation, h.after_eq, List.map_append, List.append_assoc]
    rfl
  listing := by
    rw [released, step_negation, List.nil_append, List.map_append, ← List.append_assoc, h.listing]
    rfl

/-- A group leaves nothing on the stack. -/
theorem group (h : Converts Level.formula.rank (.group :: stack) tokens e ops) :
    Converts Level.unary.rank stack (.opening :: tokens ++ [.closing]) e [] where
  tight := by simp
  after_eq := by
    show after (.group :: stack) (tokens ++ [.closing]) = _
    rw [after_append, h.after_eq]
    show (close (ops.map .operator ++ .group :: stack)).2 = _
    rw [close_append]
    rfl
  listing := by
    show released (.group :: stack) (tokens ++ [.closing]) ++ [] = _
    rw [List.append_nil, released_append, h.after_eq]
    show _ ++ ((close (ops.map .operator ++ .group :: stack)).1.map Token.operator ++ []) = _
    rw [close_append, List.append_nil, h.listing]

theorem mono {m n : Nat} (h : Converts n stack tokens e ops) (hmn : m ≤ n) :
    Converts m stack tokens e ops :=
  ⟨fun o ho => Nat.le_trans hmn (h.tight o ho), h.after_eq, h.listing⟩

/-- A connective releases what its left operand has left on the stack, and takes its place. -/
theorem extend {c : Connective} {tokens' : List Token} {l r : Expr} {ops' : List Operator}
    (hold : Holds c.rank stack) (hl : Converts c.rank stack tokens l ops)
    (hr : Converts (Level.operand c).rank (.operator (.binary c) :: stack) tokens' r ops') :
    Converts c.rank stack (tokens ++ .operator (.binary c) :: tokens') (.binary c l r)
      (ops' ++ [.binary c]) where
  tight := by
    refine tight_concat (fun o ho => ?_) (Nat.le_refl _)
    have hrank := hr.tight o ho
    rw [Level.rank_operand] at hrank
    exact Nat.le_of_succ_le hrank
  after_eq := by
    rw [after_append, hl.after_eq]
    show after (.operator (.binary c) ::
      (release (.binary c) (ops.map .operator ++ stack)).2) tokens' = _
    rw [release_append c ops stack hl.tight hold, hr.after_eq, List.map_append, List.append_assoc]
    rfl
  listing := by
    -- the connective releases just what was missing from the listing of its left operand
    rw [released_append, hl.after_eq, List.map_append, ← List.append_assoc]
    show released stack tokens ++ ((release (.binary c) (ops.map .operator ++ stack)).1.map .operator
      ++ released (.operator (.binary c) ::
        (release (.binary c) (ops.map .operator ++ stack)).2) tokens') ++ _ ++ _ = _
    rw [release_append c ops stack hl.tight hold, ← List.append_assoc, hl.listing,
      List.append_assoc l.postorder, hr.listing]
    rfl

end Converts

/-- Whatever is below, the tokens of a derivation are converted to the listing of its tree. -/
theorem exists_converts {L : Level} (d : Derivation L) (stack : List Pending)
    (hold : Holds L.rank stack) : ∃ ops, Converts L.rank stack d.tokens d.tree ops := by
  induction d generalizing stack with
  | symbol s => exact ⟨[], .symbol s stack⟩
  | negation d ih =>
      obtain ⟨ops, h⟩ := ih (.operator .not :: stack) (holds_unary _)
      exact ⟨_, h.negation⟩
  | group d ih =>
      obtain ⟨ops, h⟩ := ih (.group :: stack) (holds_group _ stack)
      exact ⟨[], h.group⟩
  | @operand c d ih =>
      -- an operand binds more tightly than the chain that it stands for
      have hle : c.rank ≤ (Level.operand c).rank := by simp
      obtain ⟨ops, h⟩ := ih stack (hold.mono hle)
      exact ⟨ops, h.mono hle⟩
  | @extend c l r ihl ihr =>
      obtain ⟨ops, hl⟩ := ihl stack hold
      obtain ⟨ops', hr⟩ := ihr (.operator (.binary c) :: stack) (holds_operand c stack)
      exact ⟨_, .extend hold hl hr⟩

end Pending

/-- The postfix form of derived tokens is the listing of the derived tree. -/
theorem Derives.ofTokens_eq {tokens : List Token} {e : Expr} (h : Derives tokens e) :
    Postfix.ofTokens tokens = ⟨e.postorder⟩ := by
  obtain ⟨d, rfl, rfl⟩ := h
  obtain ⟨ops, h⟩ := Pending.exists_converts d [] (Pending.holds_nil _)
  rw [Pending.ofTokens_eq_append, h.after_eq, List.append_nil, Pending.drain_map, h.listing]

/-- The program of a formula leaves one value. -/
theorem Derives.check_eq_ok {tokens : List Token} {e : Expr} (h : Derives tokens e) :
    (Postfix.ofTokens tokens).check = .ok () := by
  rw [h.ofTokens_eq, Postfix.check_eq_ok_iff]
  exact ⟨e, rfl⟩

/-- The grammar is unambiguous: tokens derive with one tree at most. -/
theorem Derives.unique {tokens : List Token} {e e' : Expr} (h : Derives tokens e)
    (h' : Derives tokens e') : e = e' := by
  have heq := h.ofTokens_eq.symm.trans h'.ofTokens_eq
  exact Expr.postorder_inj (congrArg Postfix.tokens heq)

end TruthTables
