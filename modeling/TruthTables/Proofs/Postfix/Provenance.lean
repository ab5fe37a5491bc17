import TruthTables.Proofs.Formula.Prediction

set_option autoImplicit false

/-! # Where the tokens of a program come from

Conversion moves operators and drops parentheses, whatever the tokens are. To tell which token went where,
each is given its place in the formula, and the places go with the tokens over the stack of pending
operators into the program. A step loses none of them: what it releases and what waits behind it is what
waited in front of it, and the token that it met (`exists_step_eq`). As symbols never wait, a symbol is
released when everything before it in the program has been met. So the program is a rearrangement of the
formula without its parentheses, in which an operator may move behind symbols and never in front of one. -/

namespace TruthTables

namespace Pending

/-! ## Taking operators off a stack -/

/-- An incoming operator takes a part off the top of the stack, and releases the operators of it. -/
theorem exists_release_eq (o : Operator) (stack : List Pending) :
    ∃ top, stack = top ++ (release o stack).2 ∧ (release o stack).1 = drain top := by
  induction stack with
  | nil => exact ⟨[], rfl, rfl⟩
  | cons entry stack ih =>
      cases entry with
      | group => exact ⟨[], rfl, rfl⟩
      | operator waiting =>
          rw [release]
          by_cases hyields : waiting.yieldsTo o = true
          · rw [if_pos hyields]
            obtain ⟨top, hstack, htop⟩ := ih
            exact ⟨.operator waiting :: top, congrArg (_ :: ·) hstack, congrArg (waiting :: ·) htop⟩
          · rw [if_neg hyields]
            exact ⟨[], rfl, rfl⟩

/-- So does a closing parenthesis, and the part ends with a group if there is one. -/
theorem exists_close_eq (stack : List Pending) :
    ∃ top, stack = top ++ (close stack).2 ∧ (close stack).1 = drain top := by
  induction stack with
  | nil => exact ⟨[], rfl, rfl⟩
  | cons entry stack ih =>
      cases entry with
      | group => exact ⟨[.group], rfl, rfl⟩
      | operator o =>
          obtain ⟨top, hstack, htop⟩ := ih
          exact ⟨.operator o :: top, congrArg (_ :: ·) hstack, congrArg (o :: ·) htop⟩

/-! ## Tokens with places -/

/-- The operators of a stack whose entries have places. -/
def waiting (stack : List (Pending × Nat)) : List (Token × Nat) :=
  stack.filterMap fun
    | (.operator o, place) => some (.operator o, place)
    | (.group, _) => none

/-- The tokens that are not parentheses with their places, of which the first is given. -/
def placed (first : Nat) (tokens : List Token) : List (Token × Nat) :=
  (tokens.zipIdx first).filter fun t => !t.1.isParenthesis

/-- The second token is no symbol, or its place is behind that of the first. -/
def Follows (a b : Token × Nat) : Prop :=
  (∃ s, b.1 = .symbol s) → a.2 < b.2

theorem map_fst_waiting (stack : List (Pending × Nat)) :
    (waiting stack).map Prod.fst = (drain (stack.map Prod.fst)).map Token.operator := by
  induction stack with
  | nil => rfl
  | cons entry stack ih =>
      obtain ⟨_ | o, place⟩ := entry
      · exact congrArg (_ :: ·) ih
      · exact ih

theorem exists_entry_of_mem_waiting {stack : List (Pending × Nat)} {t : Token × Nat}
    (h : t ∈ waiting stack) : ∃ o, t.1 = .operator o ∧ (.operator o, t.2) ∈ stack := by
  obtain ⟨⟨entry, place⟩, hentry, ht⟩ := List.mem_filterMap.1 h
  cases entry with
  | operator o =>
      cases ht
      exact ⟨o, rfl, hentry⟩
  | group => exact absurd ht (by simp)

theorem placed_cons (first : Nat) (token : Token) (rest : List Token) :
    placed first (token :: rest) = placed first [token] ++ placed (first + 1) rest := by
  rw [placed, List.zipIdx_cons, ← List.singleton_append, List.filter_append]
  rfl

theorem map_fst_placed (first : Nat) (tokens : List Token) :
    (placed first tokens).map Prod.fst = tokens.filter fun t => !t.isParenthesis := by
  conv_rhs => rw [← List.zipIdx_map_fst first tokens, List.filter_map]
  rfl

theorem mem_placed_iff {first : Nat} {tokens : List Token} {t : Token × Nat} :
    t ∈ placed first tokens ↔
      (first ≤ t.2 ∧ tokens[t.2 - first]? = some t.1) ∧ t.1.isParenthesis = false := by
  rw [placed, List.mem_filter, List.mem_zipIdx_iff_le_and_getElem?_sub, Bool.not_eq_true']

/-- No symbol waits. -/
theorem pairwise_follows_waiting (stack : List (Pending × Nat)) :
    (waiting stack).Pairwise Follows := by
  refine List.pairwise_of_forall_mem_list fun a _ b hb => ?_
  obtain ⟨o, ho, -⟩ := exists_entry_of_mem_waiting hb
  rintro ⟨s, hs⟩
  exact absurd (ho.symm.trans hs) (by simp)

/-! ## Steps -/

/-- A step releases tokens that waited, and the token that it meets is released or waits, unless it is a
    parenthesis. -/
theorem exists_step_eq (stack : List (Pending × Nat)) (token : Token) (place : Nat) :
    ∃ out stack', out.map Prod.fst = (step (stack.map Prod.fst) token).1 ∧
      stack'.map Prod.fst = (step (stack.map Prod.fst) token).2 ∧
      (out ++ waiting stack').Perm (waiting stack ++ placed place [token]) ∧
      (∀ entry ∈ stack', entry ∈ stack ∨ entry.2 = place) ∧ out.Pairwise Follows := by
  cases token with
  | symbol s =>
      exact ⟨[(.symbol s, place)], stack, rfl, rfl, List.perm_append_comm, fun _ => Or.inl,
        List.pairwise_singleton ..⟩
  | opening =>
      refine ⟨[], (.group, place) :: stack, rfl, rfl, ?_, ?_, .nil⟩
      · exact List.Perm.of_eq (List.append_nil _).symm
      · rintro entry (_ | ⟨_, hentry⟩)
        · exact Or.inr rfl
        · exact Or.inl hentry
  | closing =>
      obtain ⟨top, hstack, hreleased⟩ := exists_close_eq (stack.map Prod.fst)
      obtain ⟨top', rest, rfl, rfl, hrest⟩ := List.map_eq_append_iff.1 hstack
      refine ⟨waiting top', rest, ?_, hrest, ?_, fun _ h => Or.inl (List.mem_append_right _ h),
        pairwise_follows_waiting top'⟩
      · rw [map_fst_waiting, ← hreleased]
        rfl
      · rw [waiting, waiting, ← List.filterMap_append]
        exact List.Perm.of_eq (List.append_nil _).symm
  | operator o =>
      obtain ⟨top, hstack, hreleased⟩ := exists_release_eq o (stack.map Prod.fst)
      obtain ⟨top', rest, rfl, rfl, hrest⟩ := List.map_eq_append_iff.1 hstack
      refine ⟨waiting top', (.operator o, place) :: rest, ?_, ?_, ?_, ?_,
        pairwise_follows_waiting top'⟩
      · rw [map_fst_waiting, ← hreleased]
        rfl
      · exact congrArg (.operator o :: ·) hrest
      · show (waiting top' ++ (.operator o, place) :: waiting rest).Perm
          (waiting (top' ++ rest) ++ [(.operator o, place)])
        rw [waiting, waiting, waiting, List.filterMap_append, List.append_assoc]
        exact (List.perm_append_singleton _ _).symm.append_left _
      · rintro entry (_ | ⟨_, hentry⟩)
        · exact Or.inr rfl
        · exact Or.inl (List.mem_append_right _ hentry)

/-! ## Runs -/

/-- Whatever waits and whatever follows arrives, and nothing gets in front of a symbol that was met
    first. -/
theorem exists_convert_eq (tokens : List Token) (stack : List (Pending × Nat)) (first : Nat)
    (hstack : ∀ entry ∈ stack, entry.2 < first) :
    ∃ out : List (Token × Nat), out.map Prod.fst = convert (stack.map Prod.fst) tokens ∧
      out.Perm (waiting stack ++ placed first tokens) ∧ out.Pairwise Follows := by
  induction tokens generalizing stack first with
  | nil =>
      exact ⟨waiting stack, map_fst_waiting stack, List.Perm.of_eq (List.append_nil _).symm,
        pairwise_follows_waiting stack⟩
  | cons token rest ih =>
      obtain ⟨out, stack', hout, hstack', hperm, hplaces, hpairwise⟩ :=
        exists_step_eq stack token first
      have hmet : ∀ entry ∈ stack', entry.2 < first + 1 := by
        intro entry hentry
        rcases hplaces entry hentry with hold | hnew
        · exact Nat.lt_succ_of_lt (hstack entry hold)
        · exact Nat.lt_succ_of_le (Nat.le_of_eq hnew)
      obtain ⟨later, hlater, hlaterperm, hlaterpairwise⟩ := ih stack' (first + 1) hmet
      refine ⟨out ++ later, ?_, ?_, List.pairwise_append.2 ⟨hpairwise, hlaterpairwise, ?_⟩⟩
      · rw [List.map_append, hout, hlater, hstack']
        rfl
      · calc out ++ later
          _ |>.Perm (out ++ (waiting stack' ++ placed (first + 1) rest)) := hlaterperm.append_left out
          _ |>.Perm (waiting stack ++ placed first [token] ++ placed (first + 1) rest) := by
            rw [← List.append_assoc]
            exact hperm.append_right _
          _ |>.Perm (waiting stack ++ placed first (token :: rest)) := by
            rw [placed_cons first token rest, List.append_assoc]
      · -- what is released now has been met, and symbols that come later have not
        rintro a ha b hb ⟨s, hs⟩
        have hnow : a.2 ≤ first := by
          rcases List.mem_append.1 (hperm.subset (List.mem_append_left _ ha)) with hold | hnew
          · obtain ⟨o, -, hentry⟩ := exists_entry_of_mem_waiting hold
            exact Nat.le_of_lt (hstack _ hentry)
          · obtain ⟨⟨hle, htoken⟩, -⟩ := mem_placed_iff.1 hnew
            have hlt := (List.getElem?_eq_some_iff.1 htoken).1
            rw [List.length_singleton] at hlt
            omega
        rcases List.mem_append.1 (hlaterperm.subset hb) with hold | hnew
        · obtain ⟨o, ho, -⟩ := exists_entry_of_mem_waiting hold
          exact absurd (ho.symm.trans hs) (by simp)
        · exact Nat.lt_of_le_of_lt hnow (mem_placed_iff.1 hnew).1.1

end Pending

/-! ## Programs -/

/-- The places in a formula from which the tokens of a program come, in the order of the program. Each
    place is named once unless it has a parenthesis, and whatever stands before a symbol comes from a
    place before that of the symbol. -/
structure Provenance (formula program : List Token) (places : List Nat) : Prop where
  tokens : program.map some = places.map (formula[·]?)
  once : places.Nodup
  all : ∀ place, place ∈ places ↔ ∃ t, formula[place]? = some t ∧ t.isParenthesis = false
  order : places.Pairwise fun before place =>
    (∃ s, formula[place]? = some (.symbol s)) → before < place

namespace Postfix

open Pending

/-- The tokens of a program, with their places in the formula. -/
theorem exists_placed (formula : List Token) :
    ∃ out : List (Token × Nat), out.map Prod.fst = (ofTokens formula).tokens ∧
      out.Perm (placed 0 formula) ∧ out.Pairwise Follows :=
  exists_convert_eq formula [] 0 (by simp)

theorem exists_provenance (formula : List Token) :
    ∃ places, Provenance formula (ofTokens formula).tokens places := by
  obtain ⟨out, hout, hperm, hpairwise⟩ := exists_placed formula
  have hmem : ∀ t, t ∈ out ↔ formula[t.2]? = some t.1 ∧ t.1.isParenthesis = false := by
    intro t
    rw [hperm.mem_iff, mem_placed_iff]
    simp
  refine ⟨out.map Prod.snd, ?_, ?_, ?_, ?_⟩
  · rw [← hout, List.map_map, List.map_map]
    exact List.map_congr_left fun t ht => ((hmem t).1 ht).1.symm
  · have hplaces : (placed 0 formula).map Prod.snd |>.Nodup := by
      have hall : (formula.zipIdx.map Prod.snd).Nodup := by
        rw [List.zipIdx_map_snd]
        exact List.nodup_range' ..
      exact hall.sublist (List.filter_sublist.map _)
    exact (hperm.map Prod.snd).nodup_iff.2 hplaces
  · intro place
    constructor
    · intro h
      obtain ⟨t, ht, rfl⟩ := List.mem_map.1 h
      exact ⟨t.1, (hmem t).1 ht⟩
    · rintro ⟨t, ht⟩
      exact List.mem_map.2 ⟨(t, place), (hmem (t, place)).2 ht, rfl⟩
  · rw [List.pairwise_map]
    refine hpairwise.imp_of_mem ?_
    rintro a b - hb hfollows ⟨s, hs⟩
    exact hfollows ⟨s, Option.some.inj (((hmem b).1 hb).1.symm.trans hs)⟩

/-- A program is its formula without the parentheses, in some order. -/
theorem ofTokens_perm (formula : List Token) :
    (ofTokens formula).tokens.Perm (formula.filter fun t => !t.isParenthesis) := by
  obtain ⟨out, hout, hperm, -⟩ := exists_placed formula
  rw [← hout, ← map_fst_placed 0 formula]
  exact hperm.map Prod.fst

/-- A token that evaluation does not expect is found by the check as well. -/
theorem check_of_evaluate_unexpected {p : Postfix} {v : Valuation} {t : Token} {position : Nat}
    (h : p.evaluate v = .error (.unexpectedToken t position)) :
    p.check = .error (.unexpectedToken t position) := by
  by_cases hv : ∀ s ∈ p.symbols, (v s).isSome = true
  · exact (evaluateFrom_eq_error_iff
      (fun s hs => hv s (Token.mem_filterMap_symbol?_iff.2 hs)) [] 0 _).1 h
  · obtain ⟨front, s, behind, htokens, hfront, hs⟩ := exists_first_unassigned hv
    obtain ⟨hsame, hunassigned⟩ := evaluate_of_first_unassigned htokens hfront hs
    by_cases hfound : ∃ cause, p.check = .error cause ∧ cause.IsBefore front.length
    · obtain ⟨cause, hcheck, hbefore⟩ := hfound
      rw [hcheck, ← Except.error.inj (h.symm.trans (hsame cause hcheck hbefore))]
    · have hnone := hunassigned fun cause hcheck hbefore => hfound ⟨cause, hcheck, hbefore⟩
      exact absurd (hnone.symm.trans h) (by simp)

/-- Whatever tokens are converted, none is lost, made up or doubled. The program has no parentheses and
    has every other token of the formula as often as the formula does. Its symbols stand in the order of
    the formula. Every token of the program comes from a place of its own, and what stands in front of a
    symbol, be it an operator or a symbol, comes from a place in front of that symbol. So no token of the
    program is unexpected, neither to the check nor to evaluation. -/
theorem ofTokens_rearranges (formula : List Token) :
    (∀ t ∈ (ofTokens formula).tokens, t.isParenthesis = false) ∧
    (ofTokens formula).tokens.Perm (formula.filter fun t => !t.isParenthesis) ∧
    (ofTokens formula).symbols = formula.filterMap Token.symbol? ∧
    (∃ places, Provenance formula (ofTokens formula).tokens places) ∧
    (∀ t position, (ofTokens formula).check ≠ .error (.unexpectedToken t position)) ∧
    ∀ v t position, (ofTokens formula).evaluate v ≠ .error (.unexpectedToken t position) := by
  have hcheck : ∀ t position, (ofTokens formula).check ≠ .error (.unexpectedToken t position) := by
    intro t position h
    obtain ⟨hmem, ht⟩ := isParenthesis_of_checkFrom h
    exact absurd ht (by simp [isParenthesis_of_mem_ofTokens hmem])
  refine ⟨fun t => isParenthesis_of_mem_ofTokens, ofTokens_perm formula, symbols_ofTokens formula,
    exists_provenance formula, hcheck, fun v t position h => ?_⟩
  exact hcheck t position (check_of_evaluate_unexpected h)

/-- Parentheses that do not match let operators out of their groups, and never in front of a symbol that
    stood before them. -/
theorem ofTokens_rearranges_unbalanced :
    let p : Token := .symbol ⟨'p', 0⟩
    let q : Token := .symbol ⟨'q', 1⟩
    let formula : List Token := [.operator .not, p, .closing, .operator (.binary .or), .opening, q]
    (ofTokens formula).tokens = [p, .operator .not, q, .operator (.binary .or)] ∧
      (∃ places, Provenance formula (ofTokens formula).tokens places) ∧
      ∀ t position, (ofTokens formula).check ≠ .error (.unexpectedToken t position) := by
  intro p q formula
  obtain ⟨-, -, -, hprovenance, hcheck, -⟩ := ofTokens_rearranges formula
  exact ⟨rfl, hprovenance, hcheck⟩

end Postfix

end TruthTables
