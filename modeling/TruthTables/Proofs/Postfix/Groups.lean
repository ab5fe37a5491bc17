import TruthTables.Proofs.Grammar.Alternation
import TruthTables.Proofs.Postfix.Order

set_option autoImplicit false

/-! # Groups on the stack

What stands between two parentheses is converted on its own. The `(` on the stack shields all that is
below: an operator releases nothing beyond a group, and a `)` reaches it only if no group has been opened
since. How many groups are open on the stack is what `nest` counts (`count_group_step`). So tokens that
never close more groups than they open are converted above a group as they would be with nothing below
(`run_above_group`), and the `)` behind balanced tokens then releases what the end of the tokens would.
No order of operands and operators is asked for; this goes for every balanced sequence. -/

namespace TruthTables

namespace Pending

/-! ## Releasing operators -/

/-- An operator releases nothing beyond a group. -/
theorem release_above_group (o : Operator) (stack below : List Pending) :
    release o (stack ++ .group :: below) =
      ((release o stack).1, (release o stack).2 ++ .group :: below) := by
  induction stack with
  | nil => rfl
  | cons entry stack ih =>
      cases entry with
      | group => rfl
      | operator waiting =>
          rw [List.cons_append, release, release]
          by_cases hyields : waiting.yieldsTo o = true
          · rw [if_pos hyields, if_pos hyields, ih]
          · rw [if_neg hyields, if_neg hyields]
            rfl

theorem count_group_release (o : Operator) (stack : List Pending) :
    (release o stack).2.count .group = stack.count .group := by
  induction stack with
  | nil => rfl
  | cons entry stack ih =>
      cases entry with
      | group => rfl
      | operator waiting =>
          rw [release]
          by_cases hyields : waiting.yieldsTo o = true
          · rw [if_pos hyields, List.count_cons_of_ne (by simp)]
            exact ih
          · rw [if_neg hyields]

/-- Closing a group leaves the groups below it. -/
theorem close_above_group {stack : List Pending} (h : stack.count .group ≠ 0) (below : List Pending) :
    close (stack ++ .group :: below) = ((close stack).1, (close stack).2 ++ .group :: below) := by
  induction stack with
  | nil => exact absurd rfl h
  | cons entry stack ih =>
      cases entry with
      | group => rfl
      | operator o =>
          rw [List.count_cons_of_ne (by simp)] at h
          rw [List.cons_append, close, close, ih h]

/-- Of the open groups, one is closed. -/
theorem count_group_close (stack : List Pending) :
    (close stack).2.count .group = stack.count .group - 1 := by
  induction stack with
  | nil => rfl
  | cons entry stack ih =>
      cases entry with
      | group => simp [close]
      | operator o =>
          rw [close, List.count_cons_of_ne (by simp)]
          exact ih

/-- A stack without a group has operators only. -/
theorem map_drain {stack : List Pending} (h : stack.count .group = 0) :
    (drain stack).map .operator = stack := by
  induction stack with
  | nil => rfl
  | cons entry stack ih =>
      cases entry with
      | group => exact absurd h (by simp)
      | operator o =>
          rw [List.count_cons_of_ne (by simp)] at h
          exact congrArg (.operator o :: ·) (ih h)

/-! ## Steps -/

variable {stack : List Pending} {m : Nat}

/-- The groups on the stack are those that the tokens have opened and not closed. -/
theorem count_group_step {token : Token} (h : nest (stack.count .group) token = some m) :
    (step stack token).2.count .group = m := by
  cases token with
  | symbol s =>
      rw [nest_symbol] at h
      exact Option.some.inj h
  | opening =>
      rw [← Option.some.inj h]
      exact List.count_cons_self
  | operator o =>
      rw [nest_operator] at h
      show (.operator o :: (release o stack).2).count .group = m
      rw [List.count_cons_of_ne (by simp), count_group_release]
      exact Option.some.inj h
  | closing =>
      show (close stack).2.count .group = m
      rw [count_group_close, nest_closing_eq_some_iff.1 h, Nat.add_sub_cancel]

/-- A token that does not close the group below is converted as if there were nothing below. -/
theorem step_above_group {token : Token} (h : nest (stack.count .group) token = some m)
    (below : List Pending) : step (stack ++ .group :: below) token =
      ((step stack token).1, (step stack token).2 ++ .group :: below) := by
  cases token with
  | symbol s => rfl
  | opening => rfl
  | operator o =>
      rw [step, release_above_group]
      rfl
  | closing =>
      have hopen : stack.count .group ≠ 0 := by
        rw [nest_closing_eq_some_iff.1 h]
        exact Nat.succ_ne_zero m
      rw [step, close_above_group hopen]
      rfl

/-! ## Runs -/

/-- Tokens that close no more groups than they open are converted above a group as with nothing below. -/
theorem run_above_group {tokens : List Token} (h : tokens.foldlM nest (stack.count .group) = some m)
    (below : List Pending) :
    released (stack ++ .group :: below) tokens = released stack tokens ∧
    after (stack ++ .group :: below) tokens = after stack tokens ++ .group :: below ∧
    (after stack tokens).count .group = m := by
  induction tokens generalizing stack with
  | nil => exact ⟨rfl, rfl, Option.some.inj h⟩
  | cons token rest ih =>
      rw [List.foldlM_cons] at h
      obtain ⟨n, hn, hrest⟩ := Option.bind_eq_some_iff.1 h
      rw [← count_group_step hn] at hrest
      obtain ⟨hreleased, hafter, hcount⟩ := ih hrest
      refine ⟨?_, ?_, hcount⟩
      · rw [released, released, step_above_group hn below]
        exact congrArg ((step stack token).1 ++ ·) hreleased
      · show after (step (stack ++ .group :: below) token).2 rest = _
        rw [step_above_group hn below]
        exact hafter

/-- A balanced sequence between parentheses releases its own conversion and leaves the stack as it was. -/
theorem run_group {tokens : List Token} (h : Balanced tokens) (stack : List Pending) :
    released stack (grouped tokens) = (Postfix.ofTokens tokens).tokens ∧
      after stack (grouped tokens) = stack := by
  have hbalanced : tokens.foldlM nest (List.count .group ([] : List Pending)) = some 0 := h
  obtain ⟨hreleased, hafter, hcount⟩ := run_above_group hbalanced stack
  rw [List.nil_append] at hreleased hafter
  have hclose : close (after (.group :: stack) tokens) = (drain (after [] tokens), stack) := by
    rw [hafter, ← map_drain hcount, close_append, drain_map]
  constructor
  · show released (.group :: stack) (tokens ++ [.closing]) = _
    rw [released_append, hreleased, ofTokens_eq_append]
    show _ ++ ((close (after (.group :: stack) tokens)).1.map Token.operator ++ []) = _
    rw [hclose, List.append_nil]
  · show after (.group :: stack) (tokens ++ [.closing]) = _
    rw [after_append]
    show (close (after (.group :: stack) tokens)).2 = _
    rw [hclose]

end Pending

/-! ## Converting groups -/

namespace Postfix

open Pending

variable {tokens tokens' : List Token}

/-- Parentheses around a balanced sequence do not show. -/
theorem ofTokens_grouped (h : Balanced tokens) : ofTokens (grouped tokens) = ofTokens tokens := by
  obtain ⟨hreleased, hafter⟩ := run_group h []
  rw [ofTokens_eq_append, hreleased, hafter]
  exact congrArg mk (List.append_nil _)

/-- A negation sign in front of a group comes behind what the group is converted to. -/
theorem ofTokens_negation_grouped (h : Balanced tokens) :
    ofTokens (.operator .not :: grouped tokens) =
      ⟨(ofTokens tokens).tokens ++ [.operator .not]⟩ := by
  obtain ⟨hreleased, hafter⟩ := run_group h [.operator .not]
  have hpending : after [] (.operator .not :: grouped tokens) = [.operator .not] := hafter
  rw [ofTokens_eq_append, hpending, released, step_negation, hreleased]
  rfl

/-- A connective between two groups comes behind what both are converted to. -/
theorem ofTokens_grouped_connective_grouped (h : Balanced tokens) (h' : Balanced tokens')
    (c : Connective) : ofTokens (grouped tokens ++ .operator (.binary c) :: grouped tokens') =
      ⟨(ofTokens tokens).tokens ++ (ofTokens tokens').tokens ++ [.operator (.binary c)]⟩ := by
  obtain ⟨hleft, hempty⟩ := run_group h []
  obtain ⟨hright, hpending⟩ := run_group h' [.operator (.binary c)]
  have hreleased : released [] (grouped tokens ++ .operator (.binary c) :: grouped tokens') =
      (ofTokens tokens).tokens ++ (ofTokens tokens').tokens := by
    rw [released_append, hleft, hempty]
    exact congrArg ((ofTokens tokens).tokens ++ ·) hright
  have hafter : after [] (grouped tokens ++ .operator (.binary c) :: grouped tokens') =
      [.operator (.binary c)] := by
    rw [after_append, hempty]
    exact hpending
  rw [ofTokens_eq_append, hreleased, hafter]
  rfl

end Postfix

end TruthTables
