import Mathlib.Data.List.Chain
import Mathlib.Data.List.Perm.Subperm
import TruthTables.Proofs.Postfix.Moments
import TruthTables.Proofs.Postfix.Provenance

set_option autoImplicit false

/-! # Layers of pending operators

An operator is put on the stack when the one below it is not complete (`Operator.WaitsOn`). As this relation
is transitive, what holds of two operators that lie one on the other holds of any two with no `(` between
them, and so the operators of an open group are known: connectives that bind tighter and tighter, of which
there are three at most, and then negation signs (`ascends_of_pairwise`). Precedence and associativity rest
on this. It takes no formula to hold, as the stack keeps its layers whatever token comes (`layered_step`),
and taking entries off the top does not disturb them, so it holds at every moment. -/

namespace TruthTables

namespace Operator

/-- An operator can wait on top of another one, which is not complete when the upper one comes. -/
def WaitsOn (upper lower : Operator) : Prop :=
  lower.yieldsTo upper = false

theorem waitsOn_iff {upper lower : Operator} :
    upper.WaitsOn lower ↔ upper = .not ∨ lower.rank < upper.rank := by
  cases upper with
  | not => simp [WaitsOn, not_yieldsTo_not]
  | binary c => simp [WaitsOn, yieldsTo, isUnary]

theorem not_waitsOn_negation (c : Connective) : ¬ WaitsOn (.binary c) .not := by
  cases c <;> simp [waitsOn_iff, rank, Connective.rank]

theorem WaitsOn.rank_le {upper lower : Operator} (h : upper.WaitsOn lower) : lower.rank ≤ upper.rank := by
  rcases waitsOn_iff.1 h with rfl | h
  · cases lower with
    | not => exact Nat.le_refl _
    | binary c => cases c <;> decide
  · exact Nat.le_of_lt h

theorem WaitsOn.trans {a b c : Operator} (h : a.WaitsOn b) (h' : b.WaitsOn c) : a.WaitsOn c := by
  rcases waitsOn_iff.1 h with rfl | hab
  · exact waitsOn_iff.2 (.inl rfl)
  · exact waitsOn_iff.2 (.inr (Nat.lt_of_le_of_lt h'.rank_le hab))

/-- Operators from the bottom up: connectives of strictly increasing rank and then negation signs. -/
def Ascends (ops : List Operator) : Prop :=
  ∃ (cs : List Connective) (n : Nat), ops = cs.map .binary ++ List.replicate n .not ∧
    cs.Pairwise fun c d => c.rank < d.rank

/-- Operators that wait one on the other, seen from the bottom. -/
theorem ascends_of_pairwise {ops : List Operator} (h : ops.Pairwise WaitsOn) : Ascends ops.reverse := by
  induction ops with
  | nil => exact ⟨[], 0, rfl, .nil⟩
  | cons o ops ih =>
      obtain ⟨hlower, hops⟩ := List.pairwise_cons.1 h
      obtain ⟨cs, n, hreverse, hcs⟩ := ih hops
      cases o with
      | not =>
          refine ⟨cs, n + 1, ?_, hcs⟩
          rw [List.reverse_cons, hreverse, List.append_assoc, List.replicate_succ']
      | binary c =>
          -- a connective cannot wait on a negation sign, so there are none below it
          have hmem : ∀ lower ∈ cs.map .binary ++ List.replicate n .not, WaitsOn (.binary c) lower := by
            intro lower hmem
            rw [← hreverse, List.mem_reverse] at hmem
            exact hlower lower hmem
          obtain rfl : n = 0 := by
            rcases Nat.eq_zero_or_pos n with hzero | hpos
            · exact hzero
            · have hnot : Operator.not ∈ List.replicate n Operator.not :=
                List.mem_replicate.2 ⟨Nat.ne_of_gt hpos, rfl⟩
              exact absurd (hmem _ (List.mem_append_right _ hnot)) (not_waitsOn_negation c)
          refine ⟨cs ++ [c], 0, ?_, List.pairwise_append.2 ⟨hcs, List.pairwise_singleton .., ?_⟩⟩
          · rw [List.reverse_cons, hreverse, List.map_append, List.replicate_zero, List.append_nil,
              List.append_nil]
            rfl
          · intro d hd e he
            rw [List.mem_singleton.1 he]
            rcases waitsOn_iff.1 (hmem _ (List.mem_append_left _ (List.mem_map_of_mem hd))) with hnot | hlt
            · exact absurd hnot (by simp)
            · exact hlt

/-- There are only three ranks. -/
theorem Ascends.countP_le {ops : List Operator} (h : Ascends ops) :
    ops.countP (fun o => !o.isUnary) ≤ 3 := by
  obtain ⟨cs, n, rfl, hcs⟩ := h
  have hcount : (cs.map binary ++ List.replicate n not).countP (fun o => !o.isUnary) = cs.length := by
    simp [List.countP_replicate, isUnary, Function.comp_def]
  have hnodup : cs.Nodup := hcs.imp fun hlt => by
    rintro rfl
    exact Nat.lt_irrefl _ hlt
  have hsubset : cs ⊆ [.implies, .or, .and] := by
    intro c _
    cases c <;> decide
  rw [hcount]
  exact (List.Nodup.subperm hnodup hsubset).length_le

end Operator

namespace Pending

/-! ## Layers -/

/-- Where an operator lies directly on another one, it can wait there. -/
def Layered (stack : List Pending) : Prop :=
  stack.IsChain fun upper lower =>
    ∀ o waiting, upper = .operator o → lower = .operator waiting → o.WaitsOn waiting

theorem Layered.suffix {stack below : List Pending} (h : Layered stack) (hbelow : below <:+ stack) :
    Layered below :=
  List.IsChain.suffix h hbelow

/-- What is below the released operators does not yield. -/
theorem not_yieldsTo_head_release {o waiting : Operator} {stack : List Pending}
    (h : (release o stack).2.head? = some (.operator waiting)) : waiting.yieldsTo o = false := by
  induction stack with
  | nil => exact absurd h (by simp [release])
  | cons entry stack ih =>
      cases entry with
      | group => exact absurd h (by simp [release])
      | operator top =>
          rw [release] at h
          by_cases hyields : top.yieldsTo o = true
          · rw [if_pos hyields] at h
            exact ih h
          · rw [if_neg hyields] at h
            cases h
            exact Bool.eq_false_iff.2 hyields

/-- Whatever token comes, the layers are kept. -/
theorem layered_step {stack : List Pending} (h : Layered stack) (token : Token) :
    Layered (step stack token).2 := by
  cases token with
  | symbol s => exact h
  | opening => exact List.isChain_cons.2 ⟨by simp, h⟩
  | closing =>
      obtain ⟨top, hstack, -⟩ := exists_close_eq stack
      exact h.suffix ⟨top, hstack.symm⟩
  | operator o =>
      obtain ⟨top, hstack, -⟩ := exists_release_eq o stack
      refine List.isChain_cons.2 ⟨?_, h.suffix ⟨top, hstack.symm⟩⟩
      rintro _ hhead _ waiting ⟨⟩ rfl
      exact not_yieldsTo_head_release hhead

theorem layered_after (tokens : List Token) {stack : List Pending} (h : Layered stack) :
    Layered (after stack tokens) := by
  induction tokens generalizing stack with
  | nil => exact h
  | cons token rest ih => exact ih (layered_step h token)

/-- Any two operators with no group between them wait one on the other. -/
theorem Layered.pairwise {above below : List Pending} {ops : List Operator}
    (h : Layered (above ++ ops.map .operator ++ below)) : ops.Pairwise Operator.WaitsOn := by
  have hops : Layered (ops.map .operator) := h.left_of_append.right_of_append
  have hchain : ops.IsChain Operator.WaitsOn :=
    List.isChain_of_isChain_map Pending.operator (fun _ _ h => h _ _ rfl rfl) hops
  have htrans : Trans Operator.WaitsOn Operator.WaitsOn Operator.WaitsOn := ⟨Operator.WaitsOn.trans⟩
  exact List.isChain_iff_pairwise.1 hchain

/-- Operators on a written stack have been written as such. -/
theorem exists_of_written_eq {stack : List Pending} {above below : List Token} {ops : List Operator}
    (h : written stack = above ++ ops.map .operator ++ below) :
    ∃ above' below', stack = above' ++ ops.map .operator ++ below' := by
  obtain ⟨front, below', rfl, hfront, -⟩ := List.map_eq_append_iff.1 h
  obtain ⟨above', middle, rfl, -, hmiddle⟩ := List.map_eq_append_iff.1 hfront
  have hinjective : Function.Injective token := by
    intro a b hab
    cases a <;> cases b <;> simp_all [token]
  have hoperators : middle = ops.map .operator := by
    refine List.map_injective_iff.2 hinjective ?_
    rw [hmiddle, List.map_map]
    rfl
  exact ⟨above', below', by rw [hoperators]⟩

end Pending

namespace Moment

open Pending

/-- The operators between two open groups, above the last or below the first, from the bottom up:
    connectives that bind tighter and tighter, three at most, then negation signs. No operator is above one
    that binds tighter. -/
structure Ordered (ops : List Operator) : Prop where
  ascends : Operator.Ascends ops.reverse
  connectives : ops.countP (fun o => !o.isUnary) ≤ 3
  rank_le : ops.Pairwise fun upper lower => lower.rank ≤ upper.rank

/-- Whatever tokens are converted, at every moment there are only operators and `(` on the stack, and of
    operators with no `(` between them those from the bottom up are connectives that bind tighter and
    tighter, three at most, and then negation signs. The moments of a conversion are those on its way to the
    program, with the stacks between two tokens among them. -/
theorem stack_is_ordered (tokens : List Token) :
    (Reaches (start tokens) ⟨(Postfix.ofTokens tokens).tokens, [], []⟩ ∧
      ∀ read rest, tokens = read ++ rest →
        Reaches (start tokens) ⟨released [] read, written (after [] read), rest⟩) ∧
    ∀ m, Reaches (start tokens) m →
      (∀ t ∈ m.stack, t = .opening ∨ ∃ o, t = .operator o) ∧
      ∀ above ops below, m.stack = above ++ ops.map .operator ++ below → Ordered ops := by
  refine ⟨⟨reaches_ofTokens tokens, ?_⟩, fun m hm => ?_⟩
  · rintro read rest rfl
    exact reaches_of_append read rest
  · obtain ⟨read, taken, stack, hwithin⟩ := exists_within_of_reaches hm
    have hlayered : Layered stack := by
      have hafter : Layered (after [] read) := layered_after read .nil
      exact hafter.suffix ⟨taken, hwithin.after_eq.symm⟩
    rw [hwithin.stack_eq]
    constructor
    · intro t ht
      obtain ⟨_ | o, -, rfl⟩ := List.mem_map.1 ht
      · exact .inr ⟨_, rfl⟩
      · exact .inl rfl
    · intro above ops below hstack
      obtain ⟨above', below', rfl⟩ := exists_of_written_eq hstack
      have hpairwise := hlayered.pairwise
      have hascends := Operator.ascends_of_pairwise hpairwise
      exact ⟨hascends, by simpa using hascends.countP_le, hpairwise.imp Operator.WaitsOn.rank_le⟩

/-- While the `|` of `)p>q^~|` releases what is complete, the `~` is already off the stack. -/
theorem stack_is_ordered_while_releasing :
    let p : Token := .symbol ⟨'p', 0⟩
    let q : Token := .symbol ⟨'q', 1⟩
    let tokens : List Token := [.closing, p, .operator (.binary .implies), q, .operator (.binary .and),
      .operator .not, .operator (.binary .or)]
    let m : Moment := ⟨[p, q, .operator .not],
      [.operator (.binary .and), .operator (.binary .implies)], [.operator (.binary .or)]⟩
    Reaches (start tokens) m ∧ Ordered [.binary .and, .binary .implies] := by
  intro p q tokens m
  have hreaches : Reaches (start tokens) m :=
    .head rfl (.head rfl (.head rfl (.head rfl (.head rfl (.head rfl (.head rfl .refl))))))
  obtain ⟨-, hmoments⟩ := stack_is_ordered tokens
  obtain ⟨-, hordered⟩ := hmoments m hreaches
  exact ⟨hreaches, hordered [] _ [] rfl⟩

end Moment

end TruthTables
