import TruthTables.Proofs.Postfix.Groups
import TruthTables.Proofs.Postfix.Moments
import TruthTables.Proofs.Session.Construction

set_option autoImplicit false

/-! # Parentheses on the stack

Conversion has no way to report that parentheses do not match: a `)` without a group empties the stack, and
a `(` without an end is dropped. Of a text that judging has found in order neither happens. As many groups
are on the stack as are open in the text, at every moment (`exists_depth_of_reaches`). The `(` that a `)`
matches lies on the stack from the moment it is met, with what was on the stack then unchanged below it
(`Meets`), and it is on top when the moves of the `)` come to their end. -/

namespace TruthTables

/-! ## Parentheses that belong together -/

/-- A walk over the groups counts what is opened and what is closed. -/
theorem count_of_foldlM_nest {tokens : List Token} {n m : Nat} (h : tokens.foldlM nest n = some m) :
    m + tokens.count .closing = n + tokens.count .opening := by
  induction tokens generalizing n with
  | nil =>
      rw [Option.some.inj h]
      rfl
  | cons t rest ih =>
      rw [List.foldlM_cons] at h
      obtain ⟨k, ht, hrest⟩ := Option.bind_eq_some_iff.1 h
      have hcount := ih hrest
      cases t with
      | symbol s =>
          rw [nest_symbol] at ht
          cases ht
          simpa using hcount
      | operator o =>
          rw [nest_operator] at ht
          cases ht
          simpa using hcount
      | opening =>
          cases ht
          simp
          omega
      | closing =>
          obtain rfl := nest_closing_eq_some_iff.1 ht
          simp
          omega

/-- If groups are open, the last `(` that has opened one has balanced tokens behind it. -/
theorem exists_opening {tokens : List Token} {n : Nat} (h : tokens.foldlM nest 0 = some (n + 1)) :
    ∃ outer inner, tokens = outer ++ .opening :: inner ∧ Balanced inner ∧
      outer.foldlM nest 0 = some n := by
  induction hlength : tokens.length using Nat.strongRecOn generalizing tokens n with
  | ind length ih =>
      obtain rfl | ⟨front, t, rfl⟩ := List.eq_nil_or_concat tokens
      · exact absurd h (by simp)
      · rw [List.concat_eq_append, List.length_append, List.length_singleton] at hlength
        rw [List.concat_eq_append, List.foldlM_append] at h
        obtain ⟨m, hfront, hlast⟩ := Option.bind_eq_some_iff.1 h
        have ht : nest m t = some (n + 1) := by simpa using hlast
        rw [List.concat_eq_append]
        -- the group goes on over a token that is no parenthesis
        have hover : m = n + 1 → Balanced [t] → ∃ outer inner,
            front ++ [t] = outer ++ .opening :: inner ∧ Balanced inner ∧
              outer.foldlM nest 0 = some n := by
          rintro rfl hbalanced
          obtain ⟨outer, inner, rfl, hinner, houter⟩ := ih front.length (by omega) hfront rfl
          exact ⟨outer, inner ++ [t], by simp, hinner.append hbalanced, houter⟩
        cases t with
        | symbol s =>
            rw [nest_symbol] at ht
            exact hover (Option.some.inj ht) rfl
        | operator o =>
            rw [nest_operator] at ht
            exact hover (Option.some.inj ht) rfl
        | opening =>
            obtain rfl : m = n := Nat.succ.inj (Option.some.inj ht)
            exact ⟨front, [], rfl, rfl, hfront⟩
        | closing =>
            -- the `)` closes a group of its own, and the one that is looked for began before
            obtain rfl := nest_closing_eq_some_iff.1 ht
            obtain ⟨outer', inner', rfl, hinner', houter'⟩ := ih front.length (by omega) hfront rfl
            rw [List.length_append] at hlength
            obtain ⟨outer, inner, rfl, hinner, houter⟩ := ih outer'.length (by omega) houter' rfl
            exact ⟨outer, inner ++ grouped inner', by simp [grouped], hinner.append hinner'.group,
              houter⟩

namespace Pending

/-- The groups on the stack are those that are open. -/
theorem count_group_after {tokens : List Token} {n : Nat} (h : tokens.foldlM nest 0 = some n) :
    (after [] tokens).count .group = n := by
  have hwalk : tokens.foldlM nest (List.count .group ([] : List Pending)) = some n := h
  obtain ⟨-, -, hcount⟩ := run_above_group hwalk []
  exact hcount

theorem count_opening_written (stack : List Pending) :
    (written stack).count .opening = stack.count .group := by
  induction stack with
  | nil => rfl
  | cons entry stack ih =>
      cases entry with
      | group => simpa [written, token] using ih
      | operator o => simpa [written, token] using ih

/-- Entries without a group that are taken off do not reach a group. -/
theorem suffix_of_append_eq {taken stack above below : List Pending} (htaken : taken.count .group = 0)
    (h : taken ++ stack = above ++ .group :: below) : .group :: below <:+ stack := by
  rcases List.append_eq_append_iff.1 h with ⟨extra, rfl, hstack⟩ | ⟨extra, rfl, hbelow⟩
  · exact ⟨extra, hstack.symm⟩
  · cases extra with
    | nil => exact ⟨[], hbelow⟩
    | cons entry extra =>
        obtain ⟨rfl, -⟩ := List.cons.inj hbelow
        exact absurd htaken (by simp)

/-- Above what was on the stack when a `(` came, tokens that do not close it are converted on their own. -/
theorem after_append_opening (outer : List Token) {inner : List Token} {n : Nat}
    (h : inner.foldlM nest 0 = some n) :
    after [] (outer ++ .opening :: inner) = after [] inner ++ .group :: after [] outer := by
  have hwalk : inner.foldlM nest (List.count .group ([] : List Pending)) = some n := h
  obtain ⟨-, hafter, -⟩ := run_above_group hwalk (after [] outer)
  rw [after_append]
  exact hafter

end Pending

/-! ## Moments of a balanced conversion -/

namespace Moment

open Pending

variable {tokens outer inner behind : List Token} {m : Moment}

/-- At every moment the groups on the stack are those that are open. -/
theorem exists_depth_of_reaches (hbalanced : Balanced tokens) (h : Reaches (start tokens) m) :
    ∃ read, tokens = read ++ m.rest ∧ read.foldlM nest 0 = some (m.stack.count .opening) ∧
      m.rest.foldlM nest (m.stack.count .opening) = some 0 := by
  obtain ⟨read, taken, stack, hwithin⟩ := exists_within_of_reaches h
  rw [Balanced, hwithin.tokens_eq, List.foldlM_append] at hbalanced
  obtain ⟨depth, hread, hrest⟩ := Option.bind_eq_some_iff.1 hbalanced
  have hafter := count_group_after hread
  rw [hwithin.after_eq, List.count_append] at hafter
  have hcount : m.stack.count .opening = depth := by
    rw [hwithin.stack_eq, count_opening_written]
    by_cases hend : m.rest = []
    · -- with no token left no group is open, so there has been none to be taken off
      rw [hend] at hrest
      obtain rfl : depth = 0 := Option.some.inj hrest
      exact Nat.eq_zero_of_add_eq_zero_left hafter
    · rwa [hwithin.groups hend, Nat.zero_add] at hafter
  exact ⟨read, hwithin.tokens_eq, hcount ▸ hread, hcount ▸ hrest⟩

/-- The `(` at the end of `outer` and the `)` in front of `behind` meet on the stack. The `(` is put on it
    when it comes, lies there with the same stack below until the `)` comes, and is what the `)` takes off
    last. -/
structure Meets (tokens outer inner behind : List Token) (below : List Token) : Prop where
  opened : ∃ output, Reaches (start tokens) ⟨output, below, .opening :: inner ++ .closing :: behind⟩
  kept : ∀ m, Reaches (start tokens) m → m.rest <:+ inner ++ .closing :: behind →
    .closing :: behind <:+ m.rest → .opening :: below <:+ m.stack
  closed : ∃ output, Reaches (start tokens) ⟨output, .opening :: below, .closing :: behind⟩ ∧
    next ⟨output, .opening :: below, .closing :: behind⟩ = some ⟨output, below, behind⟩

theorem Meets.of_balanced (htokens : tokens = outer ++ .opening :: inner ++ .closing :: behind)
    (hbalanced : Balanced inner) : Meets tokens outer inner behind (written (after [] outer)) where
  opened := by
    subst htokens
    rw [List.append_assoc]
    exact ⟨_, reaches_of_append outer _⟩
  kept := by
    intro m hm hinside hbefore
    obtain ⟨read, taken, stack, hwithin⟩ := exists_within_of_reaches hm
    obtain ⟨later, hlater⟩ := hbefore
    obtain ⟨sooner, hsooner⟩ := hinside
    -- of `inner`, so much has been read and so much is left
    obtain rfl : sooner ++ later = inner := by
      rw [← hlater, ← List.append_assoc] at hsooner
      exact List.append_cancel_right hsooner
    have hread : read = outer ++ .opening :: sooner := by
      have heq := hwithin.tokens_eq
      rw [htokens, ← hlater, ← List.append_assoc] at heq
      have hfront := List.append_cancel_right heq
      rw [← List.cons_append, ← List.append_assoc] at hfront
      exact (List.append_cancel_right hfront).symm
    rw [Balanced, List.foldlM_append] at hbalanced
    obtain ⟨depth, hsooner', -⟩ := Option.bind_eq_some_iff.1 hbalanced
    have hafter := hwithin.after_eq
    rw [hread, after_append_opening outer hsooner'] at hafter
    have hrest : m.rest ≠ [] := by
      rw [← hlater]
      simp
    have hstack := suffix_of_append_eq (hwithin.groups hrest) hafter.symm
    rw [hwithin.stack_eq]
    exact hstack.map token
  closed := by
    subst htokens
    have hread := reaches_of_append (outer ++ .opening :: inner) (.closing :: behind)
    rw [after_append_opening outer hbalanced, ← map_drain (count_group_after hbalanced)] at hread
    exact ⟨_, hread.trans (reaches_closing _), rfl⟩

/-- At every moment as many groups are on the stack as are open, among them one to close for a `)` and none
    at the end, and every `)` meets the `(` that it matches. -/
structure Matched (tokens : List Token) : Prop where
  open_groups : ∀ m, Reaches (start tokens) m → ∃ read, tokens = read ++ m.rest ∧
    m.stack.count .opening + read.count .closing = read.count .opening
  group_to_close : ∀ m rest, Reaches (start tokens) m → m.rest = .closing :: rest → .opening ∈ m.stack
  none_left : ∀ m, Reaches (start tokens) m → m.rest = [] → .opening ∉ m.stack
  meets : ∀ before behind, tokens = before ++ .closing :: behind → ∃ outer inner below,
    before = outer ++ .opening :: inner ∧ Balanced inner ∧ Meets tokens outer inner behind below

theorem matched_of_balanced (hbalanced : Balanced tokens) : Matched tokens where
  open_groups := by
    intro m hm
    obtain ⟨read, hread, hdepth, -⟩ := exists_depth_of_reaches hbalanced hm
    refine ⟨read, hread, ?_⟩
    rw [count_of_foldlM_nest hdepth, Nat.zero_add]
  group_to_close := by
    intro m rest hm hrest
    obtain ⟨-, -, -, hwalk⟩ := exists_depth_of_reaches hbalanced hm
    rw [hrest, List.foldlM_cons] at hwalk
    obtain ⟨n, hclosing, -⟩ := Option.bind_eq_some_iff.1 hwalk
    rw [← List.count_pos_iff, nest_closing_eq_some_iff.1 hclosing]
    exact Nat.succ_pos n
  none_left := by
    intro m hm hrest
    obtain ⟨-, -, -, hwalk⟩ := exists_depth_of_reaches hbalanced hm
    rw [hrest] at hwalk
    exact List.count_eq_zero.1 (Option.some.inj hwalk)
  meets := by
    intro before behind heq
    have hwalk := hbalanced
    rw [Balanced, heq, List.foldlM_append] at hwalk
    obtain ⟨depth, hbefore, hclosing⟩ := Option.bind_eq_some_iff.1 hwalk
    rw [List.foldlM_cons] at hclosing
    obtain ⟨n, hn, -⟩ := Option.bind_eq_some_iff.1 hclosing
    obtain rfl := nest_closing_eq_some_iff.1 hn
    obtain ⟨outer, inner, rfl, hinner, -⟩ := exists_opening hbefore
    exact ⟨outer, inner, _, rfl, hinner, .of_balanced heq hinner⟩

end Moment

/-! ## Texts in order -/

namespace SymbolSet

open Moment Pending

variable {set : SymbolSet}

/-- The parentheses of characters are those of the tokens that they write. -/
theorem count_of_writes {cs : List Char} {tokens : List Token} (h : set.Writes cs tokens) :
    cs.count '(' = tokens.count .opening ∧ cs.count ')' = tokens.count .closing := by
  induction cs generalizing tokens with
  | nil =>
      obtain rfl := List.map_eq_nil_iff.1 (Eq.symm h)
      exact ⟨rfl, rfl⟩
  | cons c cs ih =>
      cases hblank : Text.isBlank c with
      | true =>
          rw [Writes, List.filter_cons_of_neg (by simp [hblank])] at h
          have hopening : c ≠ '(' := by
            rintro rfl
            exact absurd hblank (by decide)
          have hclosing : c ≠ ')' := by
            rintro rfl
            exact absurd hblank (by decide)
          rw [List.count_cons_of_ne hopening, List.count_cons_of_ne hclosing]
          exact ih h
      | false =>
          rw [Writes, List.filter_cons_of_pos (by simp [hblank]), List.map_cons, eq_comm] at h
          obtain ⟨t, rest, rfl, ht, hrest⟩ := List.map_eq_cons_iff.1 h
          obtain ⟨hopening, hclosing⟩ := ih hrest.symm
          simp only [List.count_cons, beq_iff_eq, hopening, hclosing,
            set.token?_eq_opening_iff ht.symm, set.token?_eq_closing_iff ht.symm, and_self]

/-- The text in front of a place has the tokens in front of it. -/
theorem exists_tokensOf_front {text : String} {tokens : List Token} {front behind : List Char}
    (h : set.tokensOf text = .ok tokens) (htext : text.toList = front ++ behind) :
    ∃ read, set.tokensOf (String.ofList front) = .ok read ∧ read <+: tokens ∧ set.Writes front read := by
  rw [tokensOf_eq_ok_iff, htext, List.filter_append, List.map_append, eq_comm] at h
  obtain ⟨read, rest, rfl, hread, -⟩ := List.map_eq_append_iff.1 h
  exact ⟨read, Writes.tokensOf_eq hread.symm, ⟨rest, rfl⟩, hread.symm⟩

/-- The conversion of a text that judging has found in order meets no fault of parentheses. Whatever part of
    the text is in front of a place, as many groups are on the stack there as it has opened and not closed;
    every `)` is dealt with when the `(` that it matches is taken off, which has been on the stack since it
    was met; and at the end there is no `(` left to be dropped. -/
theorem parentheses_meet_on_stack {text : String} (h : set.checkText text = .ok ()) :
    ∃ tokens, set.tokensOf text = .ok tokens ∧
      Reaches (start tokens) ⟨(Postfix.ofTokens tokens).tokens, [], []⟩ ∧ Matched tokens ∧
      (∀ front behind, text.toList = front ++ behind → ∃ read,
        set.tokensOf (String.ofList front) = .ok read ∧ read <+: tokens ∧
          (after [] read).count .group + front.count ')' = front.count '(') ∧
      (drain (after [] tokens)).map .operator = after [] tokens := by
  obtain ⟨tokens, htokens⟩ := exists_tokensOf_of_checkText h
  obtain ⟨-, hbalanced⟩ := (checkText_eq_ok_iff htokens).1 h
  refine ⟨tokens, htokens, reaches_ofTokens tokens, matched_of_balanced hbalanced, ?_,
    map_drain (count_group_after hbalanced)⟩
  intro front behind htext
  obtain ⟨read, hread, ⟨rest, rfl⟩, hwrites⟩ := exists_tokensOf_front htokens htext
  refine ⟨read, hread, ⟨rest, rfl⟩, ?_⟩
  rw [Balanced, List.foldlM_append] at hbalanced
  obtain ⟨depth, hdepth, -⟩ := Option.bind_eq_some_iff.1 hbalanced
  obtain ⟨hopening, hclosing⟩ := count_of_writes hwrites
  rw [count_group_after hdepth, hopening, hclosing, count_of_foldlM_nest hdepth, Nat.zero_add]

/-- The last `)` of two closes the group that was opened first, though another one was opened above it. -/
theorem parentheses_meet_on_stack_of_nested_groups :
    ∃ set tokens, ofList ["p", "q"] = .ok set ∧ set.checkText "~(p > (q))" = .ok () ∧
      set.tokensOf "~(p > (q))" = .ok tokens ∧
      (∃ read, set.tokensOf "~(p > (" = .ok read ∧ (after [] read).count .group = 2) ∧
      ∃ outer inner below, tokens.dropLast = outer ++ .opening :: inner ∧ Balanced inner ∧
        Meets tokens outer inner [] below := by
  let set : SymbolSet := {
    names := ['p', 'q']
    distinct := by decide
    usable := List.forall_mem_cons.2 ⟨rfl, List.forall_mem_singleton.2 rfl⟩
    nonempty := by decide
    few := by decide }
  have hjudged : set.checkText "~(p > (q))" = .ok () := rfl
  obtain ⟨tokens, htokens, -, hmatched, hfront, -⟩ := parentheses_meet_on_stack hjudged
  refine ⟨set, tokens, rfl, hjudged, htokens, ?_, ?_⟩
  · obtain ⟨read, hread, -, hcount⟩ := hfront "~(p > (".toList "q))".toList rfl
    exact ⟨read, hread, hcount⟩
  · cases htokens
    exact hmatched.meets _ [] rfl

end SymbolSet

end TruthTables
