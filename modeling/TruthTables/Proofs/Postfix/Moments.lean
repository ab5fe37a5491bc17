import Mathlib.Logic.Relation
import TruthTables.Proofs.Postfix.Order

set_option autoImplicit false

/-! # Conversion move by move

`Pending.step` deals with a token in one go, taking any number of entries off the stack. What holds of the
stack *at every moment* can only be said of a conversion that does one thing at a time: `Moment.next` takes
one entry off, or deals with one token, or does nothing more. Its stack is a list of tokens, so that it
could hold anything.

The two do the same. The moves lead through the stacks of `Pending.step` to the program
(`reaches_released`, `reaches_ofTokens`), and at whatever moment the moves are, some tokens have been dealt
with and the next one has taken some entries off the stack that these had left (`exists_within_of_reaches`).
So a property of the stacks between two tokens that does not depend on the topmost entries is one of all
moments. -/

namespace TruthTables

/-- The token that has been put on the stack. -/
def Pending.token : Pending → Token
  | .operator o => .operator o
  | .group => .opening

/-- A stack as tokens. -/
def Pending.written (stack : List Pending) : List Token :=
  stack.map Pending.token

theorem Pending.drain_append (stack stack' : List Pending) :
    drain (stack ++ stack') = drain stack ++ drain stack' :=
  List.filterMap_append

/-- A conversion under way: the tokens given out, the stack, the topmost entry first, and the tokens that
    are left. -/
structure Moment where
  output : List Token
  stack : List Token
  rest : List Token
  deriving DecidableEq, Repr

namespace Moment

/-- Nothing has been done yet. -/
def start (tokens : List Token) : Moment where
  output := []
  stack := []
  rest := tokens

/-- One move. With no token left, the stack is given out except for parentheses. -/
def next : Moment → Option Moment
  | ⟨output, stack, .symbol s :: rest⟩ => some ⟨output ++ [.symbol s], stack, rest⟩
  | ⟨output, stack, .opening :: rest⟩ => some ⟨output, .opening :: stack, rest⟩
  | ⟨output, [], .closing :: rest⟩ => some ⟨output, [], rest⟩
  | ⟨output, top :: stack, .closing :: rest⟩ =>
    if top = .opening then some ⟨output, stack, rest⟩
    else some ⟨output ++ [top], stack, .closing :: rest⟩
  | ⟨output, .operator waiting :: stack, .operator o :: rest⟩ =>
    if waiting.yieldsTo o then some ⟨output ++ [.operator waiting], stack, .operator o :: rest⟩
    else some ⟨output, .operator o :: .operator waiting :: stack, rest⟩
  | ⟨output, stack, .operator o :: rest⟩ => some ⟨output, .operator o :: stack, rest⟩
  | ⟨output, top :: stack, []⟩ =>
    some ⟨if top.isParenthesis then output else output ++ [top], stack, []⟩
  | ⟨_, [], []⟩ => none

/-- Moves lead from one moment to the other. -/
abbrev Reaches : Moment → Moment → Prop :=
  Relation.ReflTransGen fun m m' => m.next = some m'

open Pending

variable {output rest : List Token} {stack : List Pending}

/-! ## The moves of a token -/

/-- The token takes the operator on top off the stack, and goes on with what is below. -/
def Takes (token : Token) (o : Operator) (below : List Pending) : Prop :=
  step (.operator o :: below) token = (.operator o :: (step below token).1, (step below token).2)

/-- With a token to come, a move takes an operator off the stack or makes the step of the token. -/
theorem next_token (output : List Token) (stack : List Pending) (token : Token) (rest : List Token) :
    next ⟨output, written stack, token :: rest⟩ =
      some ⟨output ++ (step stack token).1, written (step stack token).2, rest⟩ ∨
    ∃ o below, stack = .operator o :: below ∧ Takes token o below ∧
      next ⟨output, written stack, token :: rest⟩ =
        some ⟨output ++ [.operator o], written below, token :: rest⟩ := by
  cases token with
  | symbol s => exact .inl rfl
  | opening => exact .inl (by simp [next, step, written, Pending.token])
  | closing =>
      rcases stack with _ | ⟨o | _, below⟩
      · exact .inl (by simp [next, step, close, written])
      · exact .inr ⟨o, below, rfl, rfl, rfl⟩
      · exact .inl (by simp [next, step, close, written, Pending.token])
  | operator o =>
      rcases stack with _ | ⟨waiting | _, below⟩
      · exact .inl (by simp [next, step, release, written, Pending.token])
      · by_cases hyields : waiting.yieldsTo o = true
        · refine .inr ⟨waiting, below, rfl, ?_, ?_⟩
          · simp [Takes, step, release, hyields]
          · simp [next, written, Pending.token, hyields]
        · exact .inl (by simp [next, step, release, written, Pending.token, hyields])
      · exact .inl (by simp [next, step, release, written, Pending.token])

/-- The moves of a token make its step. -/
theorem reaches_step (token : Token) : Reaches ⟨output, written stack, token :: rest⟩
    ⟨output ++ (step stack token).1, written (step stack token).2, rest⟩ := by
  induction stack generalizing output with
  | nil =>
      rcases next_token output [] token rest with hmove | ⟨o, below, hstack, -⟩
      · exact .single hmove
      · exact absurd hstack (by simp)
  | cons entry stack ih =>
      rcases next_token output (entry :: stack) token rest with hmove | ⟨o, below, hstack, htakes, hmove⟩
      · exact .single hmove
      · obtain ⟨rfl, rfl⟩ := List.cons.inj hstack
        have hrest := @ih (output ++ [.operator o])
        rw [List.append_assoc] at hrest
        rw [htakes]
        exact .head hmove hrest

/-- A `)` gives out the operators on top of the stack, one by one. -/
theorem reaches_closing (ops : List Operator) :
    Reaches ⟨output, written (ops.map .operator ++ stack), .closing :: rest⟩
      ⟨output ++ ops.map .operator, written stack, .closing :: rest⟩ := by
  induction ops generalizing output with
  | nil =>
      rw [List.map_nil, List.map_nil, List.append_nil]
      exact .refl
  | cons o ops ih =>
      have hmove : next ⟨output, written ((o :: ops).map .operator ++ stack), .closing :: rest⟩ =
          some ⟨output ++ [.operator o], written (ops.map .operator ++ stack), .closing :: rest⟩ := rfl
      have hrest := @ih (output ++ [.operator o])
      rw [List.append_assoc] at hrest
      exact .head hmove hrest

/-- The moves at the end drain the stack. -/
theorem reaches_drain : Reaches ⟨output, written stack, []⟩
    ⟨output ++ (drain stack).map .operator, [], []⟩ := by
  induction stack generalizing output with
  | nil =>
      rw [drain, List.filterMap_nil, List.map_nil, List.append_nil]
      exact .refl
  | cons entry stack ih =>
      cases entry with
      | group =>
          have hmove : next ⟨output, written (.group :: stack), []⟩ =
              some ⟨output, written stack, []⟩ := rfl
          exact .head hmove ih
      | operator o =>
          have hmove : next ⟨output, written (.operator o :: stack), []⟩ =
              some ⟨output ++ [.operator o], written stack, []⟩ := rfl
          have hrest := @ih (output ++ [.operator o])
          rw [List.append_assoc] at hrest
          exact .head hmove hrest

/-! ## The moves of a conversion -/

/-- Between two tokens, the moves are where the steps are. -/
theorem reaches_released (tokens : List Token) :
    Reaches ⟨output, written stack, tokens ++ rest⟩
      ⟨output ++ released stack tokens, written (after stack tokens), rest⟩ := by
  induction tokens generalizing output stack with
  | nil =>
      rw [released, List.append_nil]
      exact .refl
  | cons token tokens ih =>
      rw [released, ← List.append_assoc]
      exact (reaches_step token).trans ih

theorem reaches_of_append (read rest : List Token) : Reaches (start (read ++ rest))
    ⟨released [] read, written (after [] read), rest⟩ :=
  @reaches_released [] rest [] read

/-- The moves end with the program. -/
theorem reaches_ofTokens (tokens : List Token) :
    Reaches (start tokens) ⟨(Postfix.ofTokens tokens).tokens, [], []⟩ := by
  have hread := reaches_of_append tokens []
  rw [List.append_nil] at hread
  rw [ofTokens_eq_append]
  exact hread.trans reaches_drain

/-! ## Where the moves are -/

/-- The tokens `read` have been dealt with, and of the stack that they had left the entries `taken` have
    been taken off. What the next token does is what it would have done to begin with. -/
structure Within (tokens : List Token) (m : Moment) (read : List Token) (taken stack : List Pending) :
    Prop where
  tokens_eq : tokens = read ++ m.rest
  stack_eq : m.stack = written stack
  after_eq : after [] read = taken ++ stack
  output_eq : m.output = released [] read ++ (drain taken).map .operator
  groups : m.rest ≠ [] → taken.count .group = 0
  step_eq : ∀ token ∈ m.rest.head?, step (taken ++ stack) token =
    ((drain taken).map .operator ++ (step stack token).1, (step stack token).2)

namespace Within

variable {tokens read : List Token} {taken : List Pending}

theorem start (tokens : List Token) : Within tokens (Moment.start tokens) [] [] [] where
  tokens_eq := rfl
  stack_eq := rfl
  after_eq := rfl
  output_eq := rfl
  groups := fun _ => rfl
  step_eq := fun _ _ => rfl

/-- One more operator is taken off. -/
theorem take {o : Operator} (h : Within tokens ⟨output, written (.operator o :: stack), rest⟩ read taken
      (.operator o :: stack))
    (htakes : ∀ token ∈ rest.head?, Takes token o stack) :
    Within tokens ⟨output ++ [.operator o], written stack, rest⟩ read (taken ++ [.operator o])
      stack where
  tokens_eq := h.tokens_eq
  stack_eq := rfl
  after_eq := by rw [h.after_eq, List.append_cons]
  output_eq := by
    rw [drain_append, List.map_append, ← List.append_assoc, ← h.output_eq]
    rfl
  groups := by
    intro hrest
    rw [List.count_append, h.groups hrest]
    rfl
  step_eq := by
    intro token htoken
    rw [← List.append_cons, h.step_eq token htoken, htakes token htoken, drain_append, List.map_append,
      List.append_cons]
    rfl

/-- At the end a group is taken off and not given out. -/
theorem drop (h : Within tokens ⟨output, written (.group :: stack), []⟩ read taken (.group :: stack)) :
    Within tokens ⟨output, written stack, []⟩ read (taken ++ [.group]) stack where
  tokens_eq := h.tokens_eq
  stack_eq := rfl
  after_eq := by rw [h.after_eq, List.append_cons]
  output_eq := by
    have hgroup : drain [.group] = [] := rfl
    rw [drain_append, hgroup, List.append_nil]
    exact h.output_eq
  groups := fun hrest => absurd rfl hrest
  step_eq := by simp

/-- The token has been dealt with. -/
theorem finish {token : Token}
    (h : Within tokens ⟨output, written stack, token :: rest⟩ read taken stack) :
    Within tokens ⟨output ++ (step stack token).1, written (step stack token).2, rest⟩
      (read ++ [token]) [] (step stack token).2 where
  tokens_eq := by
    rw [h.tokens_eq, List.append_assoc]
    rfl
  stack_eq := rfl
  after_eq := by
    rw [after_append, h.after_eq]
    show (step (taken ++ stack) token).2 = _
    rw [h.step_eq token rfl]
    rfl
  output_eq := by
    have hout : output = released [] read ++ (drain taken).map .operator := h.output_eq
    rw [released_append, h.after_eq, released, released, List.append_nil, h.step_eq token rfl, hout,
      List.append_assoc]
    exact (List.append_nil _).symm
  groups := fun _ => rfl
  step_eq := fun _ _ => rfl

/-- Wherever a move leads, it is within the conversion. -/
theorem exists_next {m m' : Moment} (h : Within tokens m read taken stack)
    (hmove : m.next = some m') : ∃ read' taken' stack', Within tokens m' read' taken' stack' := by
  obtain ⟨output, written', rest⟩ := m
  obtain rfl : written' = written stack := h.stack_eq
  cases rest with
  | nil =>
      rcases stack with _ | ⟨o | _, stack⟩
      · exact absurd hmove (by simp [next, written])
      · cases hmove
        exact ⟨_, _, _, h.take (by simp)⟩
      · cases hmove
        exact ⟨_, _, _, h.drop⟩
  | cons token rest =>
      rcases next_token output stack token rest with hstep | ⟨o, below, rfl, htakes, htake⟩
      · obtain rfl := Option.some.inj (hstep.symm.trans hmove)
        exact ⟨_, _, _, h.finish⟩
      · obtain rfl := Option.some.inj (htake.symm.trans hmove)
        exact ⟨_, _, _, h.take (by simpa using htakes)⟩

end Within

/-- Whatever moment is reached, it is within the conversion. -/
theorem exists_within_of_reaches {tokens : List Token} {m : Moment} (h : Reaches (start tokens) m) :
    ∃ read taken stack, Within tokens m read taken stack := by
  induction h with
  | refl => exact ⟨_, _, _, .start tokens⟩
  | tail _ hmove ih =>
      obtain ⟨read, taken, stack, hwithin⟩ := ih
      exact hwithin.exists_next hmove

end Moment

end TruthTables
